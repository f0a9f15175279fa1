import BrowserFlow.Text.Basic

/-!
Words that may have been meant. Two words are as far apart as the fewest units
that have to be put in, left out, replaced or exchanged with their neighbour to
make one of the other, where no unit is touched twice. Main statements: the row
of distances of a beginning has one place more than the word it is compared
with, and a word with no units is as far away as the other is long.
-/

set_option autoImplicit false
set_option relaxedAutoImplicit false

namespace BrowserFlow.Suggestion

/-! ### Distance -/

/-- The distances of the beginnings of a word, one unit after the other, to the beginning of
another that ends in this unit: from the distance to the left, the row above, which starts one place
further left, and the row above that, which starts two places further left. -/
def cells (unit : CodeUnit) (unitBefore : Option CodeUnit) :
    Option CodeUnit → Nat → List CodeUnit → List Nat → List Nat → List Nat
  | before, left, v :: rest, diagonal :: above :: more, older =>
    let plain := min (min (above + 1) (left + 1)) (diagonal + if unit = v then 0 else 1)
    let distance :=
      if unitBefore = some v ∧ before = some unit then min plain (older.headD plain + 1) else plain
    distance :: cells unit unitBefore (some v) distance rest (above :: more) older.tail
  | _, _, _, _, _ => []

/-- The distances of the beginnings of a word to a beginning of another, and those to the beginning
that is one unit shorter. -/
structure Rows where
  /-- The distances. -/
  current : List Nat
  /-- Those of the row before, behind one place that nothing is read from. -/
  former : List Nat
  /-- The last unit of the beginning. -/
  last : Option CodeUnit

/-- The rows of a beginning that is one unit longer. -/
def Rows.next (word : List CodeUnit) (rows : Rows) (unit : CodeUnit) : Rows :=
  let first := rows.current.headD 0 + 1
  ⟨first :: cells unit rows.last none first word rows.current rows.former, 0 :: rows.current,
    some unit⟩

/-- The rows of a whole word beside another. -/
def rowsOf (first second : List CodeUnit) : Rows :=
  first.foldl (Rows.next second) ⟨List.range (second.length + 1), [], none⟩

/-- How far two words are apart. -/
def distance (first second : List CodeUnit) : Nat :=
  (rowsOf first second).current.getLastD 0

/-- Words of lengths that differ by more than this are not compared. -/
def farthest : Nat := 3

/-- How far two words are apart, counted only if their lengths are near. -/
def nearDistance (first second : List CodeUnit) : Nat :=
  if farthest < first.length - second.length ∨ farthest < second.length - first.length then
    max first.length second.length
  else distance first second

/-! ### Choice -/

/-- Whether words that are so far apart have more than two fifths in common. -/
def isSimilar (first second : List CodeUnit) (apart : Nat) : Bool :=
  let longest := max first.length second.length
  4 * longest < 10 * (longest - apart)

/-- The candidates that are nearest to a word, with their distance. A candidate of a single unit is
never meant. -/
def nearest (word : List CodeUnit) (found : Nat × List Text) (candidate : Text) :
    Nat × List Text :=
  let apart := nearDistance word candidate.units
  if candidate.length ≤ 1 ∨ !isSimilar word candidate.units apart then found
  else if apart < found.1 then (apart, [candidate])
  else if apart = found.1 then (apart, found.2 ++ [candidate])
  else found

/-- The candidates that may have been meant by a word, in the order of texts. -/
def meant (word : List CodeUnit) (candidates : List Text) : List Text :=
  (candidates.eraseDups.foldl (nearest word) (farthest, [])).2.mergeSort fun first second ↦
    !second.precedes first

/-- The question whether one of some words was meant, on a line of its own. -/
def question : List Text → Text
  | [] => Text.empty
  | [one] => "\n(Did you mean " ++ one ++ "?)"
  | many => "\n(Did you mean one of " ++ Text.join ", " many ++ "?)"

/-- The mark of a long switch. -/
def switchMark : Text := "--"

/-- The question behind a word that is not known. A word with the mark of a long switch is compared
without it, and so are the candidates. -/
def ofWord (word : Text) (candidates : List Text) : Text :=
  if word.startsWith switchMark then
    question ((meant (word.units.drop 2) (candidates.map fun c ↦ ⟨c.units.drop 2⟩)).map
      (switchMark ++ ·))
  else question (meant word.units candidates)

/-! ### Rows -/

theorem cells_length (unit : CodeUnit) (unitBefore before : Option CodeUnit) (left : Nat)
    (word : List CodeUnit) (above older : List Nat) (h : above.length = word.length + 1) :
    (cells unit unitBefore before left word above older).length = word.length := by
  induction word generalizing before left above older with
  | nil => simp [cells]
  | cons v rest ih =>
    match above, h with
    | diagonal :: next :: more, h => simp [cells, ih _ _ (next :: more) _ (by simpa using h)]

/-- A row has one place more than the word it is compared with. -/
theorem length_rowsOf (first second : List CodeUnit) :
    (rowsOf first second).current.length = second.length + 1 := by
  have step (rows : Rows) (h : rows.current.length = second.length + 1) :
      (first.foldl (Rows.next second) rows).current.length = second.length + 1 := by
    induction first generalizing rows with
    | nil => exact h
    | cons u rest ih => exact ih _ (by simp [Rows.next, cells_length _ _ _ _ _ _ _ h])
  exact step _ (by simp)

/-- From nothing to a word it takes all of its units. -/
theorem distance_nil (second : List CodeUnit) : distance [] second = second.length := by
  simp [distance, rowsOf, List.range_succ]

end BrowserFlow.Suggestion
