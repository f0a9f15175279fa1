import BrowserFlow.Yaml.Mapping
import BrowserFlow.Yaml.Scalar
import BrowserFlow.Yaml.Tag

/-!
YAML nodes. A node is a scalar, a collection in brackets or a collection laid out
by indentation, with a tag and an anchor in front of it, or an alias of an
earlier node. The level of a node is the indentation that it has to exceed. The
readers of nested nodes are bounded by the length of the text: every level of
nesting and every entry takes at least one unit of it.
-/

set_option autoImplicit false
set_option relaxedAutoImplicit false

namespace BrowserFlow.Yaml

/-- What is known while the nodes of a document are read. -/
structure Scan where
  /-- The place. -/
  cursor : Cursor
  /-- The nodes under their anchors; one that is still being read has no value. -/
  anchors : Entries (Option Datum)
  /-- The stems of the handles of tags. -/
  handles : Entries Text
  /-- Whether a node has been found inside of itself. -/
  isEndless : Bool

/-- Reading that may find a flaw. -/
abbrev Reader := StateT Scan (Except Flaw)

namespace Reader

/-- The place. -/
def cursor : Reader Cursor := do return (← get).cursor

/-- The place set. -/
def moveTo (c : Cursor) : Reader Unit := modify fun s ↦ { s with cursor := c }

/-- Separation passed over, and the line ends in it. -/
def skipGap : Reader Nat := do
  let (breaks, after) := (← cursor).skipGap true
  moveTo after
  return breaks

/-- The next unit of the line passed over. -/
def advance : Reader Unit := do moveTo (← cursor).next

/-- A node put under an anchor; one that is still being read has no value. -/
def register (anchor : Option Text) (value : Option Datum) : Reader Unit :=
  match anchor with
  | some name => modify fun s ↦ { s with anchors := s.anchors.put name value }
  | none => pure ()

end Reader

open Reader

/-! ### Properties -/

/-- What stands in front of the content of a node. -/
structure Properties where
  /-- The tag. -/
  tag : Option Text
  /-- The anchor. -/
  anchor : Option Text

/-- No properties. -/
def Properties.none : Properties := ⟨.none, .none⟩

/-- A unit of a name of an anchor. -/
def isNameUnit (u : CodeUnit) : Bool := !isGap u && !isFlowMark u

/-- The name of an anchor or an alias behind its mark. -/
def readAnchorName : Reader Text := do
  let (name, after) := (← cursor).next.takeWhile isNameUnit
  if name.isEmpty then throw .namelessAnchor
  moveTo after
  return ⟨name⟩

/-- A unit that may stand in a tag. -/
def isTagUnit (u : CodeUnit) : Bool :=
  u.isLetter || u.isDigit || (Text.ofString "-#;/?:@&=+$,_.!~*'()[]").units.contains u

/-- Whether units are a tag from its second unit on: units of tags and octets behind percent
signs. -/
def areTagUnits : List CodeUnit → Bool
  | [] => true
  | u :: rest =>
    if u = '%' then
      match rest with
      | a :: b :: more =>
        (a.valueInBase? 16).isSome && (b.valueInBase? 16).isSome && areTagUnits more
      | _ => false
    else isTagUnit u && areTagUnits rest

/-- Whether units can be written as a tag. -/
def isTag (units : List CodeUnit) : Bool :=
  match units with
  | [] => true
  | first :: rest => !isFlowMark first && areTagUnits rest

/-- Whether units are a handle: an exclamation mark, two, or letters and hyphens between two. -/
def isHandle (units : List CodeUnit) : Bool :=
  match units with
  | [] => false
  | first :: rest =>
    first = '!' && (rest.isEmpty
      || (rest.getLast? == some '!' && rest.dropLast.all fun u ↦ u.isLetter || u = '-'))

/-- The octet of two digits of base sixteen. -/
def octet? (a b : CodeUnit) : Option UInt8 := do
  some ((← a.valueInBase? 16) * 16 + (← b.valueInBase? 16)).toUInt8

/-- The characters of octets that were written behind percent signs; none are none. -/
def octetUnits? (octets : List UInt8) : Option (List CodeUnit) :=
  (String.fromUTF8? ⟨octets.reverse.toArray⟩).map fun s ↦ (Text.ofString s).units

/-- Units with the octets behind percent signs put in as characters. Octets in reverse wait until
the last of a row has been seen; those that make up no characters are refused. -/
def decodePercent? (waiting : List UInt8) : List CodeUnit → Option (List CodeUnit)
  | [] => octetUnits? waiting
  | u :: rest =>
    if u = '%' then
      match rest with
      | a :: b :: more =>
        match octet? a b with
        | some octet => decodePercent? (octet :: waiting) more
        | none => none
      | _ => none
    else do
      let before ← octetUnits? waiting
      let after ← decodePercent? [] rest
      some (before ++ u :: after)

/-- The name of a tag, decoded. -/
def tagName (units : List CodeUnit) : Except Flaw Text :=
  if !isTag units then .error .malformedTag
  else
    match decodePercent? [] units with
    | some decoded => .ok ⟨decoded⟩
    | none => .error .malformedTag

/-- A tag between angle brackets, from the unit behind the opening one on. -/
def readVerbatimTag (c : Cursor) : Reader Text := do
  match c.rest with
  | [] => throw (.unclosed .verbatimTag)
  | first :: rest =>
    let more := rest.takeWhile fun (u : CodeUnit) ↦ u != '>'
    if more.length = rest.length then throw (.unclosed .verbatimTag)
    moveTo (c.forward (more.length + 2))
    ofExcept (tagName (first :: more))

/-- The stem that a handle stands for. -/
def stemOf (handle : Text) : Reader Text := do
  match (← get).handles.find? handle with
  | some stem => return stem
  | none =>
    if handle = "!" then return "!"
    else if handle = "!!" then return Tag.commonStem
    else throw (.unknownHandle handle)

/-- A tag behind its exclamation mark. -/
def readTag : Reader Text := do
  let c := (← cursor).next
  if c.isAt '<' then readVerbatimTag c.next
  else
    let (units, after) := c.takeWhile (!isGap ·)
    moveTo after
    let (handle, suffix) := match Text.breakOn? [CodeUnit.ofChar '!'] units with
      | some (before, behind) => (CodeUnit.ofChar '!' :: before ++ [CodeUnit.ofChar '!'], behind)
      | none => ([CodeUnit.ofChar '!'], units)
    if !isHandle handle || suffix.contains ('!' : CodeUnit) || suffix.any isFlowMark then
      throw .malformedTag
    let name ← ofExcept (tagName suffix)
    return (← stemOf ⟨handle⟩) ++ name

/-! ### Levels -/

/-- The places of nodes that differ in what may stand there. -/
inductive Context where
  /-- Inside of brackets. -/
  | bracketed
  /-- The key of an entry in front of its colon. -/
  | key
  /-- An item of a sequence that is laid out by indentation. -/
  | item
  /-- The value of an entry, or a whole document. -/
  | value
  deriving DecidableEq

/-- Whether nodes may be laid out by indentation. -/
def Context.isBlock (context : Context) : Bool := context = .item || context = .value

/-- Where the content of a node begins. -/
structure Beginning where
  /-- Its indentation against that of the node around it. -/
  level : Ordering
  /-- Whether it begins on a line of its own. -/
  isOnNewLine : Bool
  /-- Whether nothing stands before it that keeps it from being laid out by indentation. -/
  isFree : Bool

/-- How a place is indented against a level. -/
def levelOf (c : Cursor) (parent : Int) : Ordering := compare (c.indent : Int) parent

/-- The properties in front of a node, with white space behind each, and where its content
begins. -/
def readProperties (parent : Int) (block : Bool) :
    Nat → Properties → Beginning → Reader (Properties × Beginning)
  | 0, properties, beginning => return (properties, beginning)
  | fuel + 1, properties, beginning => do
    let c ← cursor
    if !(c.isAt '!' || c.isAt '&') then return (properties, beginning)
    let properties ←
      if c.isAt '!' then
        if properties.tag.isSome then throw .repeatedProperty
        pure { properties with tag := some (← readTag) }
      else
        if properties.anchor.isSome then throw .repeatedProperty
        pure { properties with anchor := some (← readAnchorName) }
    let breaks ← skipGap
    let after ← cursor
    let beginning :=
      if breaks = 0 then { beginning with isFree := false } else ⟨levelOf after parent, true, block⟩
    readProperties parent block fuel properties beginning

/-! ### Content -/

/-- What stands at a place, before its properties are applied. -/
structure Content where
  /-- Its sort; an alias and what is missing have none. -/
  kind : Option NodeKind
  /-- Its value. -/
  datum : Datum
  /-- Whether it is a plain scalar, which is what it is written as. -/
  isPlain : Bool

/-- A node. -/
structure Node where
  /-- Its sort. -/
  kind : Option NodeKind
  /-- Its value. -/
  datum : Datum
  /-- Whether it is the mark of a merge. -/
  isMerge : Bool
  /-- Whether anything was there. -/
  isThere : Bool

/-- What can be read where a mapping laid out by indentation may begin. -/
inductive Layout where
  /-- The mapping. -/
  | mapping (draft : Draft)
  /-- A node that no colon follows. -/
  | node (node : Node)
  /-- Nothing. -/
  | nothing

/-- A scalar in quotes, or an alias. -/
def readMarked? (properties : Properties) : Reader (Option Content) := do
  let c ← cursor
  let fuel := c.rest.length + 1
  if c.isAt '\'' then
    let (text, after) ← ofExcept (readSingleQuoted fuel [] c.next)
    moveTo after
    return some ⟨some .scalar, .text text, false⟩
  else if c.isAt '"' then
    let (text, after) ← ofExcept (readDoubleQuoted fuel [] c.next)
    moveTo after
    return some ⟨some .scalar, .text text, false⟩
  else if c.isAt '*' then
    let name ← readAnchorName
    let datum ← match (← get).anchors.find? name with
      | some (some datum) => pure datum
      | some none => do
        modify fun s ↦ { s with isEndless := true }
        pure Datum.null
      | none => throw (.unknownAlias name)
    let _ ← skipGap
    if properties.tag.isSome || properties.anchor.isSome then throw .aliasProperty
    return some ⟨none, datum, false⟩
  else return none

/-- A scalar or an alias that begins here, in a node whose lines are indented so far. -/
def readScalar? (context : Context) (properties : Properties) (indent : Int) :
    Reader (Option Content) := do
  let c ← cursor
  if context.isBlock && (c.isAt '|' || c.isAt '>') then
    let (text, after) ← ofExcept (readBlock indent.toNat c)
    moveTo after
    return some ⟨some .scalar, .text text, false⟩
  else
    match ← readMarked? properties with
    | some content => return some content
    | none =>
      match ← ofExcept (readPlain? (context = .bracketed) indent c) with
      | some (text, after) => do
        moveTo after
        return some ⟨some .scalar, .text text, true⟩
      | none => return none

/-- The value of a plain scalar that has no other tag, and whether it is the mark of a merge. -/
def impliedValue (content : Content) : Except Flaw (Datum × Bool) :=
  match content.kind, content.datum with
  | some .scalar, .text t => .ok (Tag.implied t, t == Scalar.mergeMark)
  | some .scalar, other => .ok (other, false)
  | some _, _ => .error (.unresolvedTag "?")
  | none, other => .ok (other, false)

/-- The node of a content under its properties, which is put under its anchor. -/
def finish (properties : Properties) (content : Option Content) : Reader Node := do
  let found := content.getD ⟨none, .null, false⟩
  let (datum, isMerge) ← match properties.tag with
    | none => if found.isPlain then ofExcept (impliedValue found) else pure (found.datum, false)
    | some tag =>
      if tag = "?" then ofExcept (impliedValue found)
      else if tag = "!" then pure (found.datum, false)
      else do
        let made ← ofExcept (Tag.apply tag found.kind found.datum)
        pure (made, tag == Tag.merge)
  register properties.anchor (some datum)
  return ⟨found.kind, datum, isMerge,
    content.isSome || properties.tag.isSome || properties.anchor.isSome⟩

/-- A tab where the indentation of an entry is. -/
def refuseTab : Reader Unit := do
  if (← cursor).tabbed then throw .tabInIndentation

/-- Whether the entries of a collection go on behind an entry that began on a line; what stands on
the line of the entry, or deeper than the collection, is no further entry. -/
def goesOn (column line : Nat) : Reader Bool := do
  let c ← cursor
  if (c.line = line || column < c.indent) && !c.atEnd then throw .badIndentation
  return !(c.indent < column)

/-- An entry of a collection in brackets put behind those already read, in reverse. -/
def addFlowEntry (inMapping isPair : Bool) (draft : Draft) (items : List Datum) (key : Node)
    (value : Datum) : Except Flaw (Draft × List Datum) := do
  if inMapping then .ok (← draft.store key.isMerge key.datum value, items)
  else if isPair then
    let pair ← Draft.empty.store key.isMerge key.datum value
    .ok (draft, .object pair.entries [] :: items)
  else .ok (draft, key.datum :: items)

mutual

/-- The node at a place. -/
def readNode (parent : Int) (context : Context) (seek compact : Bool) : Nat → Reader Node
  | 0 => throw .tooDeep
  | fuel + 1 => do
    let block := context.isBlock
    let breaks ← if seek then skipGap else pure 0
    let found ← cursor
    let sought : Beginning :=
      if breaks = 0 then ⟨.gt, false, block⟩ else ⟨levelOf found parent, true, block⟩
    let (properties, beginning) ←
      if sought.level = .gt then readProperties parent block 3 Properties.none sought
      else pure (Properties.none, sought)
    let laidOut := beginning.isFree && (beginning.isOnNewLine || compact)
    let c ← cursor
    if beginning.level = .gt then
      let indent := if block then parent + 1 else parent
      if laidOut && !c.tabbed then
        register properties.anchor none
        match ← readItems c.column [] fuel with
        | some items => finish properties (some ⟨some .sequence, .sequence items, false⟩)
        | none =>
          match ← readEntries c.column indent false Draft.empty none fuel with
          | .mapping draft =>
            finish properties (some ⟨some .mapping, .object draft.entries [], false⟩)
          | .node node => finish properties (some ⟨node.kind, node.datum, false⟩)
          | .nothing =>
            if c.atEnd then finish properties none
            else do
              register properties.anchor (some (.object [] []))
              finish Properties.none (← readScalar? context Properties.none indent)
      else if c.isAt '[' || c.isAt '\x7b' then
        let inMapping := c.isAt '\x7b'
        register properties.anchor none
        advance
        let (draft, items) ← readBracketed indent inMapping true Draft.empty [] fuel
        finish properties (some (
          if inMapping then ⟨some .mapping, .object draft.entries [], false⟩
          else ⟨some .sequence, .sequence items, false⟩))
      else finish properties (← readScalar? context properties indent)
    else if beginning.level = .eq && context = .value && laidOut && !c.tabbed then
      register properties.anchor none
      match ← readItems c.column [] fuel with
      | some items => finish properties (some ⟨some .sequence, .sequence items, false⟩)
      | none => finish properties none
    else finish properties none

/-- The items of a sequence laid out by indentation at a column, behind those already read in
reverse; nothing if no item is there. -/
def readItems (column : Nat) (done : List Datum) : Nat → Reader (Option (List Datum))
  | 0 => throw .tooDeep
  | fuel + 1 => do
    let c ← cursor
    let result := if done.isEmpty then none else some done.reverse
    if c.atEnd then return result
    refuseTab
    if !(c.isAt '-' && c.precedes isGap) then return result
    advance
    let breaks ← skipGap
    if breaks ≠ 0 && (← cursor).indent ≤ column then readItems column (.null :: done) fuel
    else
      let line := (← cursor).line
      let item ← readNode column .item false true fuel
      let _ ← skipGap
      if ← goesOn column line then readItems column (item.datum :: done) fuel
      else return some (item.datum :: done).reverse

/-- The entries of a mapping laid out by indentation at a column, with those already read and the
key whose colon is still to come. -/
def readEntries (column : Nat) (indent : Int) (detected : Bool) (draft : Draft)
    (key : Option Datum) : Nat → Reader Layout
  | 0 => throw .tooDeep
  | fuel + 1 => do
    let c ← cursor
    let line := c.line
    let closed : Reader Draft := match key with
      | some datum => ofExcept (draft.store false datum .null)
      | none => pure draft
    let result : Reader Layout := do
      let draft ← closed
      return if detected then .mapping draft else .nothing
    if c.atEnd then result
    else
      if key.isNone then refuseTab
      if c.isAt '?' && c.precedes isGap then
        let draft ← closed
        advance
        let node ← readNode column .value true true fuel
        let _ ← skipGap
        if ← goesOn column line then readEntries column indent true draft (some node.datum) fuel
        else return .mapping (← ofExcept (draft.store false node.datum .null))
      else if c.isAt ':' && c.precedes isGap then
        match key with
        | none => throw .missingKey
        | some datum =>
          advance
          let value ← readNode column .value true true fuel
          let draft ← ofExcept (draft.store false datum value.datum)
          let _ ← skipGap
          if ← goesOn column line then readEntries column indent true draft none fuel
          else return .mapping draft
      else
        let node ← readNode indent .key false true fuel
        if !node.isThere then result
        else if (← cursor).line ≠ line then
          if detected then throw .longKey else return .node node
        else
          let afterKey := (← cursor).skipWhile isSpace
          moveTo afterKey
          if afterKey.isAt ':' then
            if !afterKey.precedes isGap then throw .missingSpace
            let draft ← closed
            advance
            let value ← readNode column .value true false fuel
            let draft ← ofExcept (draft.store node.isMerge node.datum value.datum)
            let _ ← skipGap
            if ← goesOn column line then readEntries column indent true draft none fuel
            else return .mapping draft
          else if detected then throw .missingColon
          else return .node node

/-- The entries of a collection in brackets, behind those already read; between two of them stands
a comma. -/
def readBracketed (indent : Int) (inMapping ready : Bool) (draft : Draft)
    (items : List Datum) : Nat → Reader (Draft × List Datum)
  | 0 => throw .tooDeep
  | fuel + 1 => do
    if (← cursor).atEnd then throw (.unclosed .brackets)
    let _ ← skipGap
    let c ← cursor
    if c.isAt (if inMapping then '\x7d' else ']') then
      advance
      return (draft, items.reverse)
    else if !ready then throw .missingComma
    else if c.isAt ',' then throw .missingEntry
    else
      let isExplicit := c.isAt '?' && c.precedes isGap
      if isExplicit then
        advance
        let _ ← skipGap
      let line := (← cursor).line
      let key ← readNode indent .bracketed false true fuel
      let _ ← skipGap
      let c ← cursor
      let hasValue := (isExplicit || c.line = line) && c.isAt ':'
      let value ←
        if hasValue then
          advance
          let _ ← skipGap
          let node ← readNode indent .bracketed false true fuel
          pure node.datum
        else pure Datum.null
      let (draft, items) ←
        ofExcept (addFlowEntry inMapping (isExplicit || hasValue) draft items key value)
      let _ ← skipGap
      let isNext := (← cursor).isAt ','
      if isNext then advance
      readBracketed indent inMapping isNext draft items fuel

end

end BrowserFlow.Yaml
