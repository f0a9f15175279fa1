import BrowserFlow.Proofs.Text.Numerals
import BrowserFlow.Proofs.Text.Splitting
import BrowserFlow.Workflow.Place

/-!
The written paths of places, read back. A path goes down leg by leg: a list of
steps by its name, and in brackets an index in it (`Leg`). The legs of a place are
joined by dots (`Place.toText_eq_join`), and a path leads to the place that it is
the path of (`Place.ofText?_toText`), so no two places have the same path.
-/

set_option autoImplicit false
set_option relaxedAutoImplicit false

namespace BrowserFlow

/-! ### Legs -/

/-- The list of the name. -/
def Side.ofName? (name : Text) : Option Side :=
  if name = Side.body.name then some .body
  else if name = Side.otherwise.name then some .otherwise
  else none

theorem Side.ofName?_name (side : Side) : ofName? side.name = some side := by
  cases side <;> decide

/-- A part of a path: one of the lists of what is above it, and an index in the list. -/
structure Leg where
  /-- The list. -/
  side : Side
  /-- The index. -/
  index : Nat

namespace Leg

/-- The written form of a leg. -/
def toText (leg : Leg) : Text := leg.side.name ++ "[" ++ Text.ofNat leg.index ++ "]"

/-- The leg of a written form: a name, and digits in brackets behind it. -/
def ofText? (t : Text) : Option Leg :=
  match t.splitOn '[' with
  | [name, behind] =>
    match behind.splitOn ']' with
    | [digits, last] =>
      if last.isEmpty && !digits.isEmpty && digits.units.all CodeUnit.isDigit then
        (Side.ofName? name).map fun side ↦
          ⟨side, digits.units.foldl (fun value u ↦ value * 10 + u.digitValue) 0⟩
      else none
    | _ => none
  | _ => none

theorem notMem_name {mark : CodeUnit} (hmark : mark = '[' ∨ mark = '.') (side : Side) :
    mark ∉ side.name.units := by
  rcases hmark with rfl | rfl <;> cases side <;> decide

theorem splitOn_bracket (leg : Leg) :
    leg.toText.splitOn '[' = [leg.side.name, Text.ofNat leg.index ++ "]"] := by
  have hjoin : leg.toText =
      Text.join ⟨['[']⟩ [leg.side.name, Text.ofNat leg.index ++ "]"] := by
    rw [toText, Text.append_assoc]
    rfl
  rw [hjoin]
  refine Text.splitOn_join (List.cons_ne_nil _ _) fun piece hpiece ↦ ?_
  rcases List.mem_pair.mp hpiece with rfl | rfl
  · exact notMem_name (.inl rfl) leg.side
  · exact List.not_mem_append (Text.notMem_ofNat (by decide) leg.index) (by decide)

theorem splitOn_closing (n : Nat) :
    (Text.ofNat n ++ "]").splitOn ']' = [Text.ofNat n, Text.empty] := by
  have hjoin : Text.ofNat n ++ "]" = Text.join ⟨[']']⟩ [Text.ofNat n, Text.empty] :=
    (Text.append_empty (Text.ofNat n ++ "]")).symm
  rw [hjoin]
  refine Text.splitOn_join (List.cons_ne_nil _ _) fun piece hpiece ↦ ?_
  rcases List.mem_pair.mp hpiece with rfl | rfl
  · exact Text.notMem_ofNat (by decide) n
  · exact List.not_mem_nil

theorem ofText?_toText (leg : Leg) : ofText? leg.toText = some leg := by
  have hdigits : (Text.ofNat leg.index).units.all CodeUnit.isDigit = true :=
    List.all_eq_true.mpr fun _ ↦ Text.isDigit_of_mem_ofNat
  have hfilled : (Text.ofNat leg.index).isEmpty = false := by
    simpa [Text.isEmpty] using Text.ofNat_units_ne_nil leg.index
  simp only [ofText?, splitOn_bracket, splitOn_closing, hdigits, hfilled, Side.ofName?_name,
    Text.foldl_digits]
  rfl

/-- A leg has no dot. -/
theorem notMem_dot (leg : Leg) : CodeUnit.ofChar '.' ∉ leg.toText.units :=
  List.not_mem_append (List.not_mem_append (List.not_mem_append
    (notMem_name (.inr rfl) leg.side) (by decide)) (Text.notMem_ofNat (by decide) leg.index))
    (by decide)

end Leg

/-! ### Paths -/

namespace Place

/-- The legs of the place at an index in the list at a site. -/
def legsOf : Site → Nat → List Leg
  | [], index => [⟨.body, index⟩]
  | (owner, side) :: above, index => legsOf above owner ++ [⟨side, index⟩]

/-- The place that some legs lead to, from the steps of a workflow. -/
def ofLegs? : List Leg → Option Place
  | ⟨.body, index⟩ :: rest =>
    some (rest.foldl (fun place leg ↦ ⟨place.list leg.side, leg.index⟩) ⟨[], index⟩)
  | _ => none

/-- The place that a path leads to. -/
def ofText? (path : Text) : Option Place := do
  ofLegs? (← (path.splitOn '.').mapM Leg.ofText?)

theorem legsOf_ne_nil (site : Site) (index : Nat) : legsOf site index ≠ [] := by
  cases site <;> simp [legsOf]

theorem ofLegs?_concat {legs : List Leg} {place : Place} (h : ofLegs? legs = some place)
    (leg : Leg) : ofLegs? (legs ++ [leg]) = some ⟨place.list leg.side, leg.index⟩ := by
  unfold ofLegs? at h
  split at h
  · obtain rfl := Option.some.inj h
    rw [List.cons_append, ofLegs?, List.foldl_append]
    rfl
  · cases h

theorem ofLegs?_legsOf (site : Site) (index : Nat) :
    ofLegs? (legsOf site index) = some ⟨site, index⟩ := by
  induction site generalizing index with
  | nil => rfl
  | cons way above ih =>
    obtain ⟨owner, side⟩ := way
    exact ofLegs?_concat (ih owner) ⟨side, index⟩

/-- A path is the legs of its place, joined by dots. -/
theorem toText_eq_join (site : Site) (index : Nat) :
    toText ⟨site, index⟩ = Text.join ⟨['.']⟩ ((legsOf site index).map Leg.toText) := by
  induction site generalizing index with
  | nil => rfl
  | cons way above ih =>
    obtain ⟨owner, side⟩ := way
    have hmarks : Text.ofString "]." = Text.ofString "]" ++ ⟨['.']⟩ := by decide
    have hne : (legsOf above owner).map Leg.toText ≠ [] :=
      List.map_eq_nil_iff.not.mpr (legsOf_ne_nil above owner)
    have hconcat :=
      congrArg Text.mk (Text.units_join_concat ⟨['.']⟩ hne (Leg.toText ⟨side, index⟩))
    rw [legsOf, List.map_append, List.map_singleton]
    refine Eq.trans ?_ hconcat.symm
    change _ = Text.join _ _ ++ (⟨['.']⟩ ++ Leg.toText ⟨side, index⟩)
    rw [← ih, toText, toText, Site.toText, hmarks, Leg.toText]
    simp only [Text.append_assoc]

/-- A path leads to the place that it is the path of. -/
theorem ofText?_toText (place : Place) : ofText? place.toText = some place := by
  obtain ⟨site, index⟩ := place
  have hsplit : (toText ⟨site, index⟩).splitOn '.' = (legsOf site index).map Leg.toText := by
    rw [toText_eq_join]
    refine Text.splitOn_join (List.map_eq_nil_iff.not.mpr (legsOf_ne_nil site index)) ?_
    exact List.forall_mem_map.mpr fun leg _ ↦ leg.notMem_dot
  have hlegs : ∀ legs : List Leg, (legs.map Leg.toText).mapM Leg.ofText? = some legs := by
    intro legs
    induction legs with
    | nil => rfl
    | cons leg rest ih => rw [List.map_cons, List.mapM_cons, Leg.ofText?_toText, ih]; rfl
  rw [ofText?, hsplit, hlegs]
  exact ofLegs?_legsOf site index

/-- A path holds nothing but digits, the names of lists and their marks. -/
theorem notMem_toText {mark : CodeUnit} (hdigit : mark.isDigit = false)
    (hmark : mark ∉ (Text.ofString "[" ++ "]" ++ "].").units)
    (hname : ∀ side : Side, mark ∉ side.name.units) (place : Place) :
    mark ∉ place.toText.units := by
  simp only [Text.units_append, List.mem_append, not_or] at hmark
  obtain ⟨⟨hopening, hclosing⟩, hnext⟩ := hmark
  have hsite : ∀ site : Site, mark ∉ site.toText.units := by
    intro site
    induction site with
    | nil => exact hname .body
    | cons way above ih =>
      simp only [Site.toText, Text.units_append, List.mem_append, not_or]
      exact ⟨⟨⟨⟨ih, hopening⟩, Text.notMem_ofNat hdigit way.1⟩, hnext⟩, hname way.2⟩
  simp only [toText, Text.units_append, List.mem_append, not_or]
  exact ⟨⟨⟨hsite place.site, hopening⟩, Text.notMem_ofNat hdigit place.index⟩, hclosing⟩

end Place

end BrowserFlow
