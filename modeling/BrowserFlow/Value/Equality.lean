import BrowserFlow.Value.Basic

/-!
Sameness of values. Two sequences are the same when their items are, place by
place; two mappings when they have the same keys, in any order, with the same
values; two numbers only when nothing tells them apart, so that zero differs
from negative zero and a meaningless number is the same as itself.
-/

set_option autoImplicit false
set_option relaxedAutoImplicit false

namespace BrowserFlow.Value

mutual

/-- Whether nothing tells two values apart but the order of mapping keys. -/
def same : Value → Value → Bool
  | .null, .null => true
  | .bool a, .bool b => a == b
  | .number x, .number y => x == y
  | .text s, .text t => s == t
  | .sequence xs, .sequence ys => sameItems xs ys
  | .mapping xs, .mapping ys => xs.length == ys.length && sameEntries xs ys
  | _, _ => false

/-- Whether two sequences have the same items in the same places. -/
def sameItems : List Value → List Value → Bool
  | [], [] => true
  | x :: xs, y :: ys => same x y && sameItems xs ys
  | _, _ => false

/-- Whether each entry of the first list has a same one in the second. -/
def sameEntries : List (Text × Value) → Entries Value → Bool
  | [], _ => true
  | (key, x) :: rest, ys =>
    (match ys.find? key with
      | some y => same x y
      | none => false) && sameEntries rest ys

end

/-- Nothing else is the same as an absent value. -/
theorem same_null {value : Value} : same .null value = true ↔ .null = value := by
  cases value <;> simp [same]

end BrowserFlow.Value
