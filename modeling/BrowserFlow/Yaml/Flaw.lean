import BrowserFlow.Text.Basic

/-!
What can be wrong with a YAML text. Every finding is a cause, and its words are
made from the cause alone.
-/

set_option autoImplicit false
set_option relaxedAutoImplicit false

namespace BrowserFlow.Yaml

/-- Where a text may not end. -/
inductive Enclosure where
  | singleQuotes | doubleQuotes | brackets | verbatimTag
  deriving DecidableEq

namespace Enclosure

/-- The words for an enclosure. -/
def name : Enclosure → Text
  | .singleQuotes => "a single quoted scalar"
  | .doubleQuotes => "a double quoted scalar"
  | .brackets => "a flow collection"
  | .verbatimTag => "a verbatim tag"

end Enclosure

/-- A cause for which a text is not read. -/
inductive Flaw where
  /-- A unit zero in the text. -/
  | nullUnit
  /-- A unit that must not be written as it is. -/
  | unprintable
  /-- The end of the text inside of something that is to be closed. -/
  | unclosed (enclosure : Enclosure)
  /-- A document separator inside of quotes. -/
  | separatorInside (enclosure : Enclosure)
  /-- Something follows where a line has to end. -/
  | lineEndExpected
  /-- A tab stands where the indentation is. -/
  | tabInIndentation
  /-- An entry of a sequence or mapping is indented more or less than the others. -/
  | badIndentation
  /-- A colon without a key before it. -/
  | missingKey
  /-- An entry of a mapping without a colon. -/
  | missingColon
  /-- No white space behind the colon of an entry. -/
  | missingSpace
  /-- A key without a question mark that goes over several lines. -/
  | longKey
  /-- Two entries of a flow collection without a comma between them. -/
  | missingComma
  /-- A comma without an entry before it. -/
  | missingEntry
  /-- Two entries under one key. -/
  | duplicateKey
  /-- A sequence of sequences as a key. -/
  | nestedKey
  /-- A scalar as the source of a merge. -/
  | badMerge
  /-- A backslash before a unit that it makes nothing of. -/
  | unknownEscape
  /-- A unit that is no digit of base sixteen in an escape. -/
  | badEscape
  /-- Two marks of one sort in the header of a block scalar, or an indentation of zero. -/
  | badBlockHeader
  /-- Two tags or two anchors at one node. -/
  | repeatedProperty
  /-- A tag or an anchor at an alias. -/
  | aliasProperty
  /-- An anchor or an alias without a name. -/
  | namelessAnchor
  /-- An alias whose anchor has not been seen. -/
  | unknownAlias (name : Text)
  /-- A tag that is not written as tags are. -/
  | malformedTag
  /-- A handle of a tag that no directive declares. -/
  | unknownHandle (handle : Text)
  /-- A tag that has no meaning for this kind of node. -/
  | unknownTag (tag : Text)
  /-- A node that its tag does not accept. -/
  | unresolvedTag (tag : Text)
  /-- A directive that is not written as it has to be. -/
  | badDirective
  /-- Directives without the mark that ends them. -/
  | directivesUnended
  /-- Something behind the end of the document. -/
  | trailing
  /-- A second document. -/
  | severalDocuments
  /-- More levels of nesting than the text can hold. -/
  | tooDeep
  /-- A node that contains itself. -/
  | endless
  deriving DecidableEq

namespace Flaw

/-- The words for a cause. -/
def message : Flaw → Text
  | .nullUnit => "null byte is not allowed in input"
  | .unprintable => "the stream contains non-printable characters"
  | .unclosed enclosure => "unexpected end of the stream within " ++ enclosure.name
  | .separatorInside enclosure => "unexpected end of the document within " ++ enclosure.name
  | .lineEndExpected => "a line break is expected"
  | .tabInIndentation => "tab characters must not be used in indentation"
  | .badIndentation => "bad indentation of an entry"
  | .missingKey => "incomplete explicit mapping pair; a key node is missed"
  | .missingColon => "can not read an implicit mapping pair; a colon is missed"
  | .missingSpace => "a whitespace character is expected after the key-value separator"
  | .longKey => "a multiline key may not be an implicit key"
  | .missingComma => "missed comma between flow collection entries"
  | .missingEntry => "expected the node content, but found ','"
  | .duplicateKey => "duplicated mapping key"
  | .nestedKey => "nested arrays are not supported inside keys"
  | .badMerge => "cannot merge mappings; the provided source object is unacceptable"
  | .unknownEscape => "unknown escape sequence"
  | .badEscape => "expected hexadecimal character"
  | .badBlockHeader => "bad header of a block scalar"
  | .repeatedProperty => "duplication of a node property"
  | .aliasProperty => "alias node should not have any properties"
  | .namelessAnchor => "name of an anchor or alias must contain at least one character"
  | .unknownAlias name => "unidentified alias \"" ++ name ++ "\""
  | .malformedTag => "tag name is malformed"
  | .unknownHandle handle => "undeclared tag handle \"" ++ handle ++ "\""
  | .unknownTag tag => "unknown tag !<" ++ tag ++ ">"
  | .unresolvedTag tag => "cannot resolve a node with !<" ++ tag ++ "> explicit tag"
  | .badDirective => "ill-formed directive"
  | .directivesUnended => "directives end mark is expected"
  | .trailing => "end of the stream or a document separator is expected"
  | .severalDocuments => "expected a single document in the stream, but found more"
  | .tooDeep => "the document is nested too deeply"
  | .endless => "a node contains itself"

end Flaw

end BrowserFlow.Yaml
