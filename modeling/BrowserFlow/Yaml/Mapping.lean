import BrowserFlow.Value.Normal
import BrowserFlow.Yaml.Flaw

/-!
The entries of a YAML mapping while they are read. A key is the text of the node
that stands for it. Of two entries under one key the second is refused, unless
the first came from a merge, which never takes the place of an entry that is
there. Main statement: an entry that is stored is found under the text of its
key.
-/

set_option autoImplicit false
set_option relaxedAutoImplicit false

namespace BrowserFlow.Yaml

/-- Entries that have been read. -/
structure Draft where
  /-- The entries. -/
  entries : Entries Datum
  /-- The keys of the entries that came from a merge. -/
  merged : List Text

namespace Draft

/-- No entries. -/
def empty : Draft := ⟨[], []⟩

/-- The text of an item of a sequence that is a key. -/
def itemText : Datum → Except Flaw Datum
  | .sequence _ => .error .nestedKey
  | .object _ _ => .ok (.text "[object Object]")
  | item => .ok item

/-- The key that a node stands for. -/
def keyText (key : Datum) : Except Flaw Text :=
  match key with
  | .object _ _ => .ok "[object Object]"
  | .sequence items => do
    match (Datum.sequence (← items.mapM itemText)).spoken with
    | .ok text => .ok text
    | .error _ => .error .nestedKey
  | other =>
    match other.spoken with
    | .ok text => .ok text
    | .error _ => .error .nestedKey

/-- An entry of a merged mapping added, unless there is one under its key. -/
def addMerged (d : Draft) (entry : Text × Datum) : Draft :=
  if d.entries.has entry.1 then d
  else ⟨d.entries.put entry.1 entry.2, entry.1 :: d.merged⟩

/-- The entries of a mapping merged into those that are there. -/
def merge (d : Draft) (source : Datum) : Except Flaw Draft :=
  match source with
  | .object _ _ => .ok (source.listed.foldl addMerged d)
  | .sequence _ => .ok (source.listed.foldl addMerged d)
  | .bytes _ => .ok (source.listed.foldl addMerged d)
  | .date _ => .ok d
  | _ => .error .badMerge

/-- The entries of a mapping or of all mappings of a sequence merged. -/
def mergeAll (d : Draft) (source : Datum) : Except Flaw Draft :=
  match source with
  | .sequence items => items.foldlM merge d
  | other => d.merge other

/-- An entry stored under a key. -/
def put (d : Draft) (key : Text) (value : Datum) : Except Flaw Draft :=
  if d.entries.has key && !d.merged.contains key then .error .duplicateKey
  else .ok ⟨d.entries.put key value, d.merged.filter (· != key)⟩

/-- An entry stored, or, where its key is the mark of a merge, the value merged. -/
def store (d : Draft) (isMerge : Bool) (key value : Datum) : Except Flaw Draft := do
  if isMerge then d.mergeAll value else d.put (← keyText key) value

/-- An entry that is stored is found under the text of its key. -/
theorem find?_put {d result : Draft} {key : Text} {value : Datum}
    (h : d.put key value = .ok result) : result.entries.find? key = some value := by
  unfold put at h
  split at h
  · simp at h
  · rw [← Except.ok.inj h]
    exact Entries.find?_put_self d.entries key value

end Draft

end BrowserFlow.Yaml
