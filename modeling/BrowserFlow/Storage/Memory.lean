import BrowserFlow.Value.Basic
import BrowserFlow.Fault.Basic

/-!
Storage in memory: contents under paths, which are names and nothing more. Paths
keep the order in which they were first written. Main statements: what is saved
is loaded again, and the other paths are left alone.
-/

set_option autoImplicit false
set_option relaxedAutoImplicit false

namespace BrowserFlow

/-- Contents under paths. A path may hold nothing. -/
structure Store (α : Type) where
  /-- The contents in the order of their first writing. -/
  contents : Entries (Option α)

namespace Store

variable {α : Type}

/-- Storage that holds nothing. -/
def empty : Store α := ⟨[]⟩

/-- Whether something was saved under a path. -/
def has (storage : Store α) (path : Text) : Bool := Entries.has storage.contents path

/-- The paths in order. -/
def paths (storage : Store α) : List Text := Entries.keys storage.contents

/-- A content saved. -/
def save (storage : Store α) (path : Text) (content : Option α) : Store α :=
  ⟨Entries.write storage.contents path content⟩

/-- The failure to load what is not there. -/
def missing (path : Text) : Failure := .plain none ("No stored value at \"" ++ path ++ "\"")

/-- The content under a path. -/
def load (storage : Store α) (path : Text) : Except Failure α :=
  match (Entries.find? storage.contents path).join with
  | some content => .ok content
  | none => .error (missing path)

/-! ### What is loaded after a save -/

/-- What is saved is loaded again. -/
theorem load_save_self (storage : Store α) (path : Text) (content : α) :
    (storage.save path (some content)).load path = .ok content := by
  simp [save, load, Entries.find?_write]

/-- Saving under one path leaves the others alone. -/
theorem load_save_of_ne (storage : Store α) {path other : Text} (content : Option α)
    (h : path ≠ other) : (storage.save path content).load other = storage.load other := by
  simp [save, load, Entries.find?_write, h]

end Store

end BrowserFlow
