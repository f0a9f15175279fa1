import BrowserFlow.Number.Decimal

/-!
Values: what variables hold, what templates evaluate to and what is stored.
A mapping keeps its entries in one order: the keys that are written as array
indexes come first, in ascending order, and the others follow in the order in
which they were first written. Main statements: a written entry is found again,
and writing one entry leaves the others alone.
-/

set_option autoImplicit false
set_option relaxedAutoImplicit false

namespace BrowserFlow

/-- Named entries in their order. -/
abbrev Entries (α : Type) := List (Text × α)

namespace Entries

variable {α β : Type}

/-- The entry under a key. -/
def find? (entries : Entries α) (key : Text) : Option α :=
  match entries with
  | [] => none
  | (name, value) :: rest => if name = key then some value else find? rest key

/-- The keys in order. -/
def keys (entries : Entries α) : List Text := entries.map Prod.fst

/-- Whether there is an entry under a key. -/
def has (entries : Entries α) (key : Text) : Bool := (entries.find? key).isSome

/-- The array index that a key is the canonical text of; the largest one is 4294967294. -/
def indexOfKey? (key : Text) : Option Nat :=
  if key.units.isEmpty || !key.units.all CodeUnit.isDigit then none
  else
    let value := key.units.foldl (fun n u ↦ n * 10 + u.digitValue) 0
    if Text.ofNat value = key && value < 4294967295 then some value else none

/-- Whether a new key takes its place before an old one. -/
def goesBefore (new old : Text) : Bool :=
  match indexOfKey? new, indexOfKey? old with
  | some n, some m => n < m
  | some _, none => true
  | none, _ => false

/-- A new entry put into its place. -/
def insert (key : Text) (value : α) : Entries α → Entries α
  | [] => [(key, value)]
  | (name, old) :: rest =>
    if goesBefore key name then (key, value) :: (name, old) :: rest
    else (name, old) :: insert key value rest

/-- The entry under a key replaced. -/
def replace (key : Text) (value : α) : Entries α → Entries α
  | [] => []
  | (name, old) :: rest =>
    if name = key then (name, value) :: rest else (name, old) :: replace key value rest

/-- An entry written: a present key keeps its place, a new one takes its own. -/
def put (entries : Entries α) (key : Text) (value : α) : Entries α :=
  if entries.has key then replace key value entries else insert key value entries

/-- The key that names the ancestor of a mapping. A mapping that is built entry by entry takes no
entry under it. -/
def ancestorKey : Text := "__proto__"

/-- An entry assigned while a mapping is built: the ancestor's key is passed over. -/
def assign (entries : Entries α) (key : Text) (value : α) : Entries α :=
  if key = ancestorKey then entries else entries.put key value

/-- The entries with those of a second list written over them. -/
def override (entries : Entries α) (later : Entries α) : Entries α :=
  later.foldl (fun all (key, value) ↦ all.put key value) entries

/-- The entries of what is there. -/
def present (fields : List (Text × Option α)) : Entries α :=
  fields.filterMap fun (key, value?) ↦ value?.map fun value ↦ (key, value)

/-- The entries of a list written one after the other. -/
def ofList (entries : List (Text × α)) : Entries α := override [] entries

/-- An entry written: a present key keeps its place, a new one goes to the end. -/
def write (entries : Entries α) (key : Text) (value : α) : Entries α :=
  if entries.has key then replace key value entries else entries ++ [(key, value)]

/-! ### What is found after a write -/

theorem find?_insert_self (entries : Entries α) (key : Text) (value : α)
    (h : entries.find? key = none) : find? (insert key value entries) key = some value := by
  induction entries with
  | nil => simp [insert, find?]
  | cons entry rest ih =>
    obtain ⟨name, old⟩ := entry
    simp only [find?] at h
    split at h
    · simp at h
    · next hne =>
      simp only [insert]
      split
      · simp [find?]
      · simp [find?, hne, ih h]

theorem find?_insert_of_ne (entries : Entries α) (key other : Text) (value : α)
    (h : key ≠ other) : find? (insert key value entries) other = find? entries other := by
  induction entries with
  | nil => simp [insert, find?, h]
  | cons entry rest ih =>
    obtain ⟨name, old⟩ := entry
    simp only [insert]
    split
    · simp [find?, h]
    · simp [find?, ih]

theorem find?_replace_self (entries : Entries α) (key : Text) (value : α)
    (h : (entries.find? key).isSome) : find? (replace key value entries) key = some value := by
  induction entries with
  | nil => simp [find?] at h
  | cons entry rest ih =>
    obtain ⟨name, old⟩ := entry
    by_cases hname : name = key
    · simp [replace, find?, hname]
    · simp only [find?, hname, if_false] at h
      simp [replace, find?, hname, ih h]

theorem find?_replace_of_ne (entries : Entries α) (key other : Text) (value : α)
    (h : key ≠ other) : find? (replace key value entries) other = find? entries other := by
  induction entries with
  | nil => rfl
  | cons entry rest ih =>
    obtain ⟨name, old⟩ := entry
    by_cases hname : name = key
    · subst hname
      simp [replace, find?, h]
    · simp [replace, find?, hname, ih]

/-- A written entry is found again. -/
theorem find?_put_self (entries : Entries α) (key : Text) (value : α) :
    find? (put entries key value) key = some value := by
  unfold put has
  split
  · next h => exact find?_replace_self entries key value h
  · next h => exact find?_insert_self entries key value (by simpa using h)

/-- Writing one entry leaves the others alone. -/
theorem find?_put_of_ne (entries : Entries α) {key other : Text} (value : α)
    (h : key ≠ other) : find? (put entries key value) other = find? entries other := by
  unfold put
  split
  · exact find?_replace_of_ne entries key other value h
  · exact find?_insert_of_ne entries key other value h

theorem find?_append (entries : Entries α) (key other : Text) (value : α)
    (h : entries.find? key = none) :
    find? (entries ++ [(key, value)]) other =
      if key = other then some value else find? entries other := by
  induction entries with
  | nil => simp [find?]
  | cons entry rest ih =>
    obtain ⟨name, old⟩ := entry
    simp only [find?] at h
    split at h
    · simp at h
    · next hne =>
      by_cases hname : name = other
      · subst hname
        simp [find?, Ne.symm hne]
      · simp [find?, hname, ih h]

/-- What is written to a list in order of first writing is found, and the rest is left alone. -/
theorem find?_write (entries : Entries α) (key other : Text) (value : α) :
    find? (write entries key value) other =
      if key = other then some value else find? entries other := by
  unfold write has
  split
  · next h =>
    split
    · next heq => rw [← heq, find?_replace_self entries key value h]
    · next hne => rw [find?_replace_of_ne entries key other value hne]
  · next h => exact find?_append entries key other value (by simpa using h)

end Entries

/-- A value. -/
inductive Value where
  /-- No value. -/
  | null
  /-- A truth value. -/
  | bool (b : Bool)
  /-- A number. -/
  | number (x : Number)
  /-- A text. -/
  | text (t : Text)
  /-- Values in a row. -/
  | sequence (items : List Value)
  /-- Values under names. -/
  | mapping (entries : List (Text × Value))
  deriving Inhabited

/-- The kinds of values that messages tell apart. -/
inductive Kind where
  | null | boolean | number | string | sequence | mapping
  deriving DecidableEq

namespace Kind

/-- The word for a kind. -/
def name : Kind → Text
  | .null => "null"
  | .boolean => "boolean"
  | .number => "number"
  | .string => "string"
  | .sequence => "sequence"
  | .mapping => "mapping"

end Kind

namespace Value

/-- The kind of a value. -/
def kind : Value → Kind
  | .null => .null
  | .bool _ => .boolean
  | .number _ => .number
  | .text _ => .string
  | .sequence _ => .sequence
  | .mapping _ => .mapping

/-- Whether a value is a mapping. -/
def isMapping : Value → Bool
  | .mapping _ => true
  | _ => false

/-- Whether a value is null. -/
def isNull : Value → Bool
  | .null => true
  | _ => false

instance : Coe Text Value := ⟨text⟩
instance : Coe Number Value := ⟨number⟩
instance : Coe Bool Value := ⟨bool⟩

/-- The mapping with these entries, written one after the other. -/
def ofEntries (entries : List (Text × Value)) : Value := .mapping (Entries.ofList entries)

/-- The mapping of the entries that are there. -/
def ofFields (fields : List (Text × Option Value)) : Value :=
  ofEntries (Entries.present fields)

end Value

end BrowserFlow
