import BrowserFlow.Text.Basic
import Mathlib.Data.List.Basic

/-!
Texts broken at a unit and put together again. The pieces between the occurrences
of a unit do not hold it (`Text.not_mem_of_mem_splitOn`), and texts that are joined
by it break into the pieces of each of them (`Text.splitOn_join_eq_flatMap`): where
they do not hold it, into themselves (`Text.splitOn_join`). A text is broken at a mark
of several units where the mark occurs first (`Text.breakOn?_eq_some_iff`).
-/

set_option autoImplicit false
set_option relaxedAutoImplicit false

namespace BrowserFlow.Text

variable {separator u : CodeUnit} {units piece rest : List CodeUnit}

theorem splitUnits_ne_nil (separator : CodeUnit) (units : List CodeUnit) :
    splitUnits separator units ≠ [] := by
  cases units with
  | nil => simp [splitUnits]
  | cons u rest =>
    rw [splitUnits]
    split
    · simp
    · split <;> simp

/-- A unit that a list is broken at divides the pieces before it from those behind it. -/
theorem splitUnits_append_cons (separator : CodeUnit) (us vs : List CodeUnit) :
    splitUnits separator (us ++ separator :: vs)
      = splitUnits separator us ++ splitUnits separator vs := by
  induction us with
  | nil =>
    simp only [List.nil_append, splitUnits]
    split
    · next hnil => exact absurd hnil (splitUnits_ne_nil separator vs)
    · next hpieces => simp only [if_pos, hpieces, List.singleton_append]
  | cons u rest ih =>
    simp only [List.cons_append, splitUnits, ih]
    cases hrest : splitUnits separator rest with
    | nil => exact absurd hrest (splitUnits_ne_nil separator rest)
    | cons piece pieces =>
      simp only [List.cons_append]
      split <;> rfl

theorem splitUnits_of_not_mem (h : separator ∉ units) : splitUnits separator units = [units] := by
  induction units with
  | nil => rfl
  | cons u rest ih =>
    have hne := List.ne_of_not_mem_cons h
    simp only [splitUnits, ih (List.not_mem_of_not_mem_cons h), if_neg (Ne.symm hne)]

theorem not_mem_of_mem_splitUnits (h : piece ∈ splitUnits separator units) :
    separator ∉ piece := by
  induction units generalizing piece with
  | nil =>
    obtain rfl := List.mem_singleton.mp h
    simp
  | cons u rest ih =>
    rw [splitUnits] at h
    split at h
    · next hnil => exact absurd hnil (splitUnits_ne_nil separator rest)
    · next first pieces hpieces =>
      rw [hpieces] at ih
      split at h
      · rcases List.mem_cons.mp h with rfl | h
        · simp
        · exact ih h
      · next hne =>
        rcases List.mem_cons.mp h with rfl | h
        · exact List.not_mem_cons_of_ne_of_not_mem (Ne.symm hne) (ih (.head _))
        · exact ih (.tail _ h)

/-- No piece holds the unit that a text is broken at. -/
theorem not_mem_of_mem_splitOn {t name : Text} (h : name ∈ t.splitOn separator) :
    separator ∉ name.units := by
  obtain ⟨piece, hpiece, rfl⟩ := List.mem_map.mp h
  exact not_mem_of_mem_splitUnits hpiece

theorem break_eq : ofString "\n" = ⟨[CodeUnit.ofChar '\n']⟩ := by decide

theorem append_empty (t : Text) : t ++ empty = t := congrArg mk (List.append_nil t.units)

theorem append_assoc (first second third : Text) :
    first ++ second ++ third = first ++ (second ++ third) :=
  congrArg mk (List.append_assoc first.units second.units third.units)

theorem join_cons_cons (mark first second : Text) (others : List Text) :
    join mark (first :: second :: others) = first ++ mark ++ join mark (second :: others) := rfl

theorem units_join_concat (mark : Text) {names : List Text} (hne : names ≠ []) (last : Text) :
    (join mark (names ++ [last])).units =
      (join mark names).units ++ (mark.units ++ last.units) := by
  induction names with
  | nil => exact absurd rfl hne
  | cons first others ih =>
    cases others with
    | nil => exact List.append_assoc _ _ _
    | cons second rest =>
      have hrest := ih (List.cons_ne_nil _ _)
      rw [List.cons_append] at hrest
      rw [List.cons_append, List.cons_append, join_cons_cons, join_cons_cons]
      simp only [units_append, hrest, List.append_assoc]

/-- An empty text at the end of those that are joined leaves the mark before it. -/
theorem join_concat_empty (mark : Text) {names : List Text} (hne : names ≠ []) :
    join mark (names ++ [empty]) = join mark names ++ mark := by
  have hunits : (join mark (names ++ [empty])).units = (join mark names ++ (mark ++ empty)).units :=
    units_join_concat mark hne empty
  rw [append_empty] at hunits
  exact congrArg mk hunits

theorem splitOn_of_not_mem {t : Text} (h : separator ∉ t.units) : t.splitOn separator = [t] := by
  rw [splitOn, splitUnits_of_not_mem h]
  rfl

/-- Texts that are joined by a unit break at it into the pieces of each of them. -/
theorem splitOn_join_eq_flatMap {names : List Text} (hne : names ≠ []) :
    (join ⟨[separator]⟩ names).splitOn separator = names.flatMap (·.splitOn separator) := by
  induction names with
  | nil => exact absurd rfl hne
  | cons first others ih =>
    cases others with
    | nil => exact (List.append_nil _).symm
    | cons second rest =>
      have hrest := ih (List.cons_ne_nil _ _)
      rw [join_cons_cons, splitOn, units_append, units_append, List.append_assoc]
      change (splitUnits separator (first.units ++ separator :: (join _ _).units)).map mk = _
      rw [splitUnits_append_cons, List.map_append, ← splitOn, ← splitOn, hrest]
      rfl

/-- Texts that do not hold a unit are the pieces of what they are joined to by it. -/
theorem splitOn_join {names : List Text} (hne : names ≠ [])
    (h : ∀ name ∈ names, separator ∉ name.units) :
    (join ⟨[separator]⟩ names).splitOn separator = names := by
  rw [splitOn_join_eq_flatMap hne,
    List.flatMap_congr fun name hname ↦ splitOn_of_not_mem (h name hname),
    List.flatMap_singleton']

/-- Texts that do not hold a unit are the pieces of what they are put together to with it behind
each of them; behind the last one there is an empty piece. -/
theorem splitOn_concat {pieces : List Text} (h : ∀ piece ∈ pieces, separator ∉ piece.units) :
    (concat (pieces.map (· ++ ⟨[separator]⟩))).splitOn separator = pieces ++ [empty] := by
  induction pieces with
  | nil => rfl
  | cons first others ih =>
    obtain ⟨hfirst, hothers⟩ := List.forall_mem_cons.mp h
    have hunits : (concat ((first :: others).map (· ++ ⟨[separator]⟩))).units =
        first.units ++ separator :: (concat (others.map (· ++ ⟨[separator]⟩))).units := by
      simp [concat, units_append]
    rw [splitOn, hunits, splitUnits_append_cons, splitUnits_of_not_mem hfirst, List.map_append,
      ← splitOn, ih hothers]
    rfl

/-! ### Broken at a mark -/

/-- An occurrence of a mark, between the units before it and those after it, is the first: no
other begins further to the left. -/
def OccursFirst (mark before after : List CodeUnit) : Prop :=
  ∀ earlier later, earlier ++ mark ++ later = before ++ mark ++ after →
    before.length ≤ earlier.length

section

variable {mark before after units earlier later : List CodeUnit}

/-- Units are left whole exactly when the mark does not occur in them. -/
theorem breakOn?_eq_none_iff : breakOn? mark units = none ↔ ¬mark <:+: units := by
  induction units with
  | nil => simp [breakOn?]
  | cons u rest ih =>
    rw [breakOn?, List.infix_cons_iff, ← List.isPrefixOf_iff_prefix]
    split
    · next hstart => simp [hstart]
    · next hstart => simp [hstart, ih]

theorem contains_eq_false_iff {t part : Text} :
    t.contains part = false ↔ ¬part.units <:+: t.units := by
  rw [contains, Option.isSome_eq_false_iff, Option.isNone_iff_eq_none, breakOn?_eq_none_iff]

/-- No occurrence of a mark begins before the one that units are broken at. -/
theorem length_le_of_breakOn? (h : breakOn? mark units = some (before, after))
    (hoccurs : earlier ++ mark ++ later = units) : before.length ≤ earlier.length := by
  induction units generalizing before earlier with
  | nil =>
    have hunits := eq_of_breakOn? h
    simp_all
  | cons u rest ih =>
    rw [breakOn?] at h
    split at h
    · obtain ⟨rfl, -⟩ := Prod.mk.inj (Option.some.inj h)
      exact Nat.zero_le _
    · next hstart =>
      obtain ⟨⟨others, behind⟩, hrest, hpair⟩ := Option.map_eq_some_iff.mp h
      obtain ⟨rfl, rfl⟩ := Prod.mk.inj hpair
      cases earlier with
      | nil => exact absurd (List.isPrefixOf_iff_prefix.mpr ⟨later, hoccurs⟩) hstart
      | cons v more => exact Nat.succ_le_succ (ih hrest (List.cons.inj hoccurs).2)

/-- Units are broken exactly at the first occurrence of the mark. -/
theorem breakOn?_eq_some_iff : breakOn? mark units = some (before, after) ↔
    units = before ++ mark ++ after ∧ OccursFirst mark before after := by
  constructor
  · intro h
    have hunits := eq_of_breakOn? h
    exact ⟨hunits, fun _ _ hoccurs ↦ length_le_of_breakOn? h (hoccurs.trans hunits.symm)⟩
  · rintro ⟨rfl, hfirst⟩
    cases hbroken : breakOn? mark (before ++ mark ++ after) with
    | none => exact absurd ⟨before, after, rfl⟩ (breakOn?_eq_none_iff.mp hbroken)
    | some pair =>
      obtain ⟨front, back⟩ := pair
      have hunits := eq_of_breakOn? hbroken
      have hlength : before.length = front.length :=
        Nat.le_antisymm (hfirst front back hunits.symm) (length_le_of_breakOn? hbroken rfl)
      rw [List.append_assoc, List.append_assoc] at hunits
      obtain ⟨rfl, hmore⟩ := List.append_inj hunits hlength
      rw [List.append_cancel_left hmore]

/-- A mark does not occur before its first occurrence. -/
theorem OccursFirst.not_infix (h : OccursFirst mark before after) (hmark : mark ≠ []) :
    ¬mark <:+: before := by
  rintro ⟨front, back, rfl⟩
  have hle := h front (back ++ mark ++ after) (by simp only [List.append_assoc])
  have hpos := List.length_pos_iff.mpr hmark
  simp only [List.length_append] at hle
  omega

/-- The first occurrence of a mark stays the first whatever follows. -/
theorem OccursFirst.append (h : OccursFirst mark before after) (more : List CodeUnit) :
    OccursFirst mark before (after ++ more) := by
  intro front back hoccurs
  by_contra hshort
  have hle : (front ++ mark).length ≤ (before ++ mark).length := by
    simp only [List.length_append]
    omega
  obtain ⟨between, hbetween⟩ :=
    List.prefix_of_prefix_length_le ⟨back, rfl⟩ ⟨after ++ more, hoccurs.symm⟩ hle
  refine hshort (h front (between ++ after) ?_)
  rw [← List.append_assoc, hbetween]

/-- A mark whose first unit does not stand before it occurs there first. -/
theorem OccursFirst.of_notMem {first : CodeUnit} {others : List CodeUnit} (h : first ∉ before) :
    OccursFirst (first :: others) before after := by
  intro front back hoccurs
  by_contra hshort
  have hbegins : front ++ [first] <+: before ++ (first :: others) ++ after :=
    ⟨others ++ back, by simp [← hoccurs]⟩
  have hwithin : front ++ [first] <+: before := by
    refine List.prefix_of_prefix_length_le hbegins ⟨first :: others ++ after, by simp⟩ ?_
    simp only [List.length_append, List.length_singleton]
    omega
  exact h (hwithin.subset (by simp))

/-- A mark occurs first exactly where it does not occur before all of its units are there. -/
theorem occursFirst_iff (hmark : mark ≠ []) :
    OccursFirst mark before after ↔ ¬mark <:+: before ++ mark.dropLast := by
  have hlength : mark.dropLast.length + 1 = mark.length := by
    rw [List.length_dropLast]
    exact Nat.sub_add_cancel (List.length_pos_iff.mpr hmark)
  have hwhole : before ++ mark ++ after =
      before ++ mark.dropLast ++ (mark.getLast hmark :: after) := by
    conv_lhs => rw [← List.dropLast_append_getLast hmark]
    simp
  constructor
  · rintro hfirst ⟨front, back, hoccurs⟩
    have hle := hfirst front (back ++ mark.getLast hmark :: after)
      (by rw [← List.append_assoc, hoccurs, ← hwhole])
    have hsize := congrArg List.length hoccurs
    simp only [List.length_append] at hsize
    omega
  · intro hnone front back hoccurs
    by_contra hshort
    have hwithin : front ++ mark <+: before ++ mark.dropLast := by
      refine List.prefix_of_prefix_length_le ⟨back, rfl⟩ ⟨_, hwhole.symm.trans hoccurs.symm⟩ ?_
      simp only [List.length_append]
      omega
    exact hnone ((List.infix_append' front mark []).trans (by simpa using hwithin.isInfix))

/-- A mark is found behind some units exactly when it does not occur before all of its units are
there. -/
theorem breakOn?_append_iff (hmark : mark ≠ []) :
    breakOn? mark (before ++ mark ++ after) = some (before, after) ↔
      ¬mark <:+: before ++ mark.dropLast := by
  rw [breakOn?_eq_some_iff, occursFirst_iff hmark]
  exact and_iff_right rfl

end

section

variable {first : CodeUnit} {others : List CodeUnit}

theorem breakOn?_eq_none (h : first ∉ units) : breakOn? (first :: others) units = none :=
  breakOn?_eq_none_iff.mpr fun hwithin ↦ h (hwithin.subset List.mem_cons_self)

theorem breakOn?_append (h : first ∉ units) (after : List CodeUnit) :
    breakOn? (first :: others) (units ++ (first :: others) ++ after) = some (units, after) :=
  breakOn?_eq_some_iff.mpr ⟨rfl, .of_notMem h⟩

theorem breakOn?_append_self : breakOn? (first :: others) (first :: others ++ units) =
    some ([], units) := breakOn?_append List.not_mem_nil units

end

end BrowserFlow.Text
