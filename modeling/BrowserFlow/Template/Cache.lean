import BrowserFlow.Template.Basic

/-!
A store of templates that have been read. It keeps the parts of each template
under its text, is emptied before it would hold more than its limit, and keeps
nothing of a template that cannot be read.
-/

set_option autoImplicit false
set_option relaxedAutoImplicit false

namespace BrowserFlow.Template

/-- Templates that have been read, with their parts. -/
structure Cache where
  /-- Each text with its parts. -/
  entries : List (Text × List Part)

namespace Cache

/-- How many templates a cache holds at most. -/
def limit : Nat := 1000

/-- A cache that holds nothing. -/
def empty : Cache := ⟨[]⟩

/-- The parts under a text. -/
def find? (cache : Cache) (source : Text) : Option (List Part) :=
  (cache.entries.find? (·.1 == source)).map Prod.snd

/-- A template kept; a full cache is emptied first. -/
def keep (cache : Cache) (source : Text) (parts : List Part) : Cache :=
  if limit ≤ cache.entries.length then ⟨[(source, parts)]⟩
  else ⟨(source, parts) :: cache.entries⟩

/-- The parts of a template, from the cache or read and kept. -/
def read (cache : Cache) (source : Text) : Except Fault (List Part) × Cache :=
  match cache.find? source with
  | some parts => (.ok parts, cache)
  | none =>
    match Template.read source with
    | .ok parts => (.ok parts, cache.keep source parts)
    | .error fault => (.error fault, cache)

end Cache

end BrowserFlow.Template
