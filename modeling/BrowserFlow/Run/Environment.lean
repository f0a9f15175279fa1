import BrowserFlow.Fault.Basic
import BrowserFlow.Expression.Basic

/-!
The environment of a run: which names are bound, and to what. Names keep the
order in which they were first bound. A name may be bound to nothing at all; it
is listed then, but has no value to be read. Main statements: what is set is
read again, and the other names are left alone.
-/

set_option autoImplicit false
set_option relaxedAutoImplicit false

namespace BrowserFlow

/-- The names of a run and what they are bound to. -/
structure Environment where
  /-- The names in the order of their first binding. -/
  bindings : Entries (Option Value)

namespace Environment

/-- The environment with these bindings. -/
def ofEntries (seed : Entries (Option Value)) : Environment := ⟨seed⟩

/-- The environment of values. -/
def ofValues (seed : Entries Value) : Environment :=
  ofEntries (seed.map fun (name, value) ↦ (name, some value))

/-- The value of a name, if it has one. -/
def find? (env : Environment) (name : Text) : Option Value := (Entries.find? env.bindings name).join

/-- What an expression sees of an environment. -/
def scope (env : Environment) : Scope := ⟨env.find?⟩

/-- Whether a name is bound, be it to nothing. -/
def has (env : Environment) (name : Text) : Bool := Entries.has env.bindings name

/-- The value of a name. -/
def get (env : Environment) (name : Text) : Except Fault Value :=
  match env.find? name with
  | some value => .ok value
  | none => .error (.unresolved name)

/-- A name bound. -/
def set (env : Environment) (name : Text) (slot : Option Value) : Environment :=
  ⟨Entries.write env.bindings name slot⟩

/-- The items of a name with one more behind them; without a value the item is the first. -/
def extended (env : Environment) (name : Text) (item : Value) : Except Fault (List Value) :=
  match env.find? name with
  | none => .ok [item]
  | some (.sequence items) => .ok (items ++ [item])
  | some other => .error (.mismatch (.append name other.kind))

/-- An item added to the items of a name. -/
def append (env : Environment) (name : Text) (item : Value) :
    Except Fault (List Value × Environment) :=
  match env.extended name item with
  | .ok items => .ok (items, env.set name (some (.sequence items)))
  | .error fault => .error fault

/-- The bound names in order. -/
def names (env : Environment) : List Text := Entries.keys env.bindings

/-- The values of some names as the entries of a mapping. -/
def snapshotOf (env : Environment) (selected : List Text) : Entries Value :=
  selected.foldl (fun done name ↦
    match env.find? name with
    | some value => Entries.assign done name value
    | none => done) []

/-- The values of the selected names, or of all. -/
def snapshot (env : Environment) (selected : Option (List Text)) : Entries Value :=
  env.snapshotOf (selected.getD env.names)

/-! ### What is read after a write -/

/-- What is set is read again. -/
theorem find?_set_self (env : Environment) (name : Text) (slot : Option Value) :
    (env.set name slot).find? name = slot := by
  simp [set, find?, Entries.find?_write]

/-- Setting one name leaves the others alone. -/
theorem find?_set_of_ne (env : Environment) {name other : Text} (slot : Option Value)
    (h : name ≠ other) : (env.set name slot).find? other = env.find? other := by
  simp [set, find?, Entries.find?_write, h]

end Environment

end BrowserFlow
