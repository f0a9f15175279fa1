import BrowserFlow.Proofs.Workflow.ResultKeys
import Mathlib.Data.List.Chain

/-!
The normal form of result keys. A text is in normal form when it is made of
lower-case letters, digits and single low lines, begins with a letter and does not
end with a low line (`ResultKey.IsNormal`). What a name is normalized to is in this
form but for a digit in front, or it is empty (`ResultKey.normalize_isTidy`), and a
text in the form is normalized to itself (`ResultKey.normalize_of_isTidy`). So the
keys of steps are just the texts in normal form, each is the key of a step with its
name, and the result of one step takes the place of that of another just when their
keys are equal (`ResultKey.derive_normalForm`).
-/

set_option autoImplicit false
set_option relaxedAutoImplicit false

namespace BrowserFlow

namespace ResultKey

/-! ### Tidy units -/

/-- No two low lines stand side by side. -/
def HasSingleLines (units : List CodeUnit) : Prop :=
  units.IsChain fun (u v : CodeUnit) ↦ u = '_' → v ≠ '_'

instance (units : List CodeUnit) : Decidable (HasSingleLines units) :=
  inferInstanceAs (Decidable (units.IsChain _))

/-- Units of a key, with single low lines and none at the end. -/
structure IsTidy (units : List CodeUnit) : Prop where
  keyUnits : AreKeyUnits units
  single : HasSingleLines units
  last : ∀ u ∈ units.getLast?, u ≠ '_'

instance (units : List CodeUnit) : Decidable (IsTidy units) :=
  decidable_of_iff
    (AreKeyUnits units ∧ HasSingleLines units ∧
      units.getLast?.all (· != CodeUnit.ofChar '_') = true)
    ⟨fun ⟨hkeys, hsingle, h⟩ ↦ ⟨hkeys, hsingle, by simpa [Option.all_eq_true] using h⟩,
      fun ⟨hkeys, hsingle, h⟩ ↦ ⟨hkeys, hsingle, by simpa [Option.all_eq_true] using h⟩⟩

variable {word units front rest : List CodeUnit} {t : Text}

theorem ne_line_of_isKeyUnit {u : CodeUnit} (h : isKeyUnit u = true) : u ≠ '_' := by
  rintro rfl
  exact absurd h (by decide)

/-- Behind the units of a word low lines are single as before. -/
theorem hasSingleLines_append (hword : ∀ u ∈ word, isKeyUnit u = true)
    (h : HasSingleLines units) : HasSingleLines (word ++ units) := by
  induction word with
  | nil => exact h
  | cons u others ih =>
    obtain ⟨hu, hothers⟩ := List.forall_mem_cons.mp hword
    exact List.isChain_cons.mpr
      ⟨fun _ _ hline ↦ absurd hline (ne_line_of_isKeyUnit hu), ih hothers⟩

theorem units_join_cons_cons (w : List CodeUnit) (next : Text) (others : List Text) :
    (Text.join "_" (⟨w⟩ :: next :: others)).units =
      w ++ CodeUnit.ofChar '_' :: (Text.join "_" (next :: others)).units := by
  simp [Text.join, show ("_" : Text).units = [CodeUnit.ofChar '_'] by decide]

theorem units_join_ne_nil (hne : word ≠ []) (others : List Text) :
    (Text.join "_" (⟨word⟩ :: others)).units ≠ [] := by
  cases others with
  | nil => exact hne
  | cons next more =>
    rw [units_join_cons_cons]
    simp

/-- A word, a low line and tidy units, neither of them empty, are tidy. -/
theorem IsTidy.word_line (h : IsTidy units) (hne : units ≠ []) (hword : word ≠ [])
    (hkeys : ∀ u ∈ word, isKeyUnit u = true) :
    IsTidy (word ++ CodeUnit.ofChar '_' :: units) := by
  obtain ⟨⟨hall, hhead⟩, hsingle, hlast⟩ := h
  refine ⟨⟨fun u hu ↦ ?_, fun u hu ↦ ?_⟩, hasSingleLines_append hkeys ?_, ?_⟩
  · rcases List.mem_append.mp hu with hu | hu
    · exact .inl (hkeys u hu)
    · rcases List.mem_cons.mp hu with rfl | hu
      · exact .inr rfl
      · exact hall u hu
  · rw [List.head?_append_of_ne_nil _ hword] at hu
    exact hkeys u (List.mem_of_mem_head? hu)
  · exact List.isChain_cons.mpr ⟨fun v hv _ ↦ ne_line_of_isKeyUnit (hhead v hv), hsingle⟩
  · rw [List.getLast?_append_cons, List.getLast?_cons_of_ne_nil hne]
    exact hlast

/-- A word is tidy. -/
theorem isTidy_word (hkeys : ∀ u ∈ word, isKeyUnit u = true) : IsTidy word := by
  refine ⟨⟨fun u hu ↦ .inl (hkeys u hu), fun u hu ↦ hkeys u (List.mem_of_mem_head? hu)⟩, ?_,
    fun u hu ↦ ne_line_of_isKeyUnit (hkeys u (List.mem_of_getLast? hu))⟩
  rw [← List.append_nil word]
  exact hasSingleLines_append hkeys List.IsChain.nil

/-- Words that are not empty, put together with low lines, are tidy. -/
theorem join_isTidy {parts : List (List CodeUnit)}
    (h : ∀ w ∈ parts, w ≠ [] ∧ ∀ u ∈ w, isKeyUnit u = true) :
    IsTidy (Text.join "_" (parts.map Text.mk)).units := by
  induction parts with
  | nil =>
    have hnil : IsTidy [] := isTidy_word (by simp)
    exact hnil
  | cons w others ih =>
    obtain ⟨⟨hne, hw⟩, hothers⟩ := List.forall_mem_cons.mp h
    cases others with
    | nil => exact isTidy_word hw
    | cons next more =>
      have hbehind := units_join_ne_nil (hothers next List.mem_cons_self).1 (more.map Text.mk)
      rw [List.map_cons, List.map_cons, units_join_cons_cons]
      exact (ih hothers).word_line hbehind hne hw

/-- What a text is normalized to is tidy. -/
theorem normalize_isTidy (t : Text) : IsTidy (normalize t).units :=
  join_isTidy (words_keyUnits (by simp))

/-! ### Texts that are normalized to themselves -/

/-- Lower case leaves the units of keys alone. -/
theorem fold_keyUnit {u : CodeUnit} (h : isKeyUnit u = true ∨ u = '_') : u.fold = [u] := by
  have hline : (CodeUnit.ofChar '_').toNat = 95 := by decide
  have hupper : u.isUpper = false := by
    simp only [isKeyUnit, CodeUnit.isLower, CodeUnit.isDigit, Bool.or_eq_true, Bool.and_eq_true,
      decide_eq_true_eq, UInt16.le_iff_toNat_le, ← UInt16.toNat_inj, hline,
      UInt16.toNat_ofNat] at h
    simp only [CodeUnit.isUpper, Bool.and_eq_false_imp, decide_eq_true_eq, decide_eq_false_iff_not,
      UInt16.le_iff_toNat_le, UInt16.toNat_ofNat]
    omega
  have hbounds := CodeUnit.bounds_of_continuesName (continuesName_of_isKeyUnit h)
  have hkelvin : u ≠ 0x212A := by
    rintro rfl
    exact absurd hbounds (by decide)
  have hdotted : u ≠ 0x130 := by
    rintro rfl
    exact absurd hbounds (by decide)
  simp [CodeUnit.fold, hupper, hkelvin, hdotted]

theorem fold_of_areKeyUnits (h : AreKeyUnits units) : Text.fold ⟨units⟩ = ⟨units⟩ := by
  have hfold : units.flatMap CodeUnit.fold = units.flatMap fun u ↦ [u] :=
    List.flatMap_congr fun u hu ↦ fold_keyUnit (h.1 u hu)
  rw [Text.fold, hfold, List.flatMap_singleton']

/-- Behind a low line of tidy units there are more of them, and they are tidy. -/
theorem IsTidy.behind_line (h : IsTidy (front ++ CodeUnit.ofChar '_' :: rest)) :
    rest ≠ [] ∧ IsTidy rest := by
  obtain ⟨⟨hall, -⟩, hsingle, hlast⟩ := h
  obtain ⟨-, hsingle⟩ := List.isChain_split.mp hsingle
  obtain ⟨hhead, hsingle⟩ := List.isChain_cons.mp hsingle
  have hne : rest ≠ [] := by
    rintro rfl
    exact hlast '_' (by simp) rfl
  rw [List.getLast?_append_cons, List.getLast?_cons_of_ne_nil hne] at hlast
  refine ⟨hne, ⟨fun u hu ↦ hall u (by simp [hu]), fun u hu ↦ ?_⟩, hsingle, hlast⟩
  exact (hall u (by simp [List.mem_of_mem_head? hu])).resolve_right (hhead u hu rfl)

/-- The words of tidy units, put together with low lines, are the units. -/
theorem join_words (h : IsTidy (word.reverse ++ units)) :
    (Text.join "_" ((words word units).map Text.mk)).units = word.reverse ++ units := by
  induction units generalizing word with
  | nil =>
    cases word with
    | nil => rfl
    | cons u others => simp [words, Text.join]
  | cons u rest ih =>
    rw [words]
    by_cases hu : isKeyUnit u = true
    · rw [if_pos hu, ih (by simpa using h)]
      simp
    · obtain rfl : u = '_' := (h.keyUnits.1 u (by simp)).resolve_left hu
      obtain ⟨hne, hrest⟩ := h.behind_line
      have hword : word ≠ [] := by
        rintro rfl
        exact hu (h.keyUnits.2 _ rfl)
      rw [if_neg hu, if_neg (by simpa using hword)]
      have hbehind : (Text.join "_" ((words [] rest).map Text.mk)).units = rest := ih hrest
      cases hwords : words [] rest with
      | nil =>
        rw [hwords] at hbehind
        exact absurd hbehind.symm hne
      | cons next others =>
        rw [hwords] at hbehind
        rw [List.map_cons, List.map_cons, units_join_cons_cons, ← List.map_cons, hbehind]

/-- A tidy text is normalized to itself. -/
theorem normalize_of_isTidy (h : IsTidy t.units) : normalize t = t := by
  rw [normalize, fold_of_areKeyUnits h.keyUnits]
  have hjoin : (Text.join "_" ((words [] t.units).map Text.mk)).units = t.units := join_words h
  exact congrArg Text.mk hjoin

/-! ### The keys of steps -/

/-- A key in normal form: lower-case letters, digits and single low lines, with a letter in front
and no low line at the end. -/
structure IsNormal (key : Text) : Prop where
  units : ∀ u ∈ key.units, u.isLower = true ∨ u.isDigit = true ∨ u = '_'
  single : HasSingleLines key.units
  first : ∃ u ∈ key.units.head?, u.isLower = true
  last : ∀ u ∈ key.units.getLast?, u ≠ '_'

theorem IsNormal.isTidy (h : IsNormal t) : IsTidy t.units := by
  refine ⟨⟨fun u hu ↦ ?_, fun u hu ↦ ?_⟩, h.single, h.last⟩
  · rw [isKeyUnit, Bool.or_eq_true, or_assoc]
    exact h.units u hu
  · obtain ⟨first, hfirst, hlower⟩ := h.first
    obtain rfl := Option.mem_unique hu hfirst
    rw [isKeyUnit, hlower, Bool.true_or]

/-- Tidy units are a key in normal form when a letter is in front. -/
theorem IsTidy.isNormal (h : IsTidy t.units) (hfirst : ∃ u ∈ t.units.head?, u.isLower = true) :
    IsNormal t := by
  refine ⟨fun u hu ↦ ?_, h.single, hfirst, h.last⟩
  rw [← or_assoc, ← Bool.or_eq_true]
  exact h.keyUnits.1 u hu

/-- A tidy text that is not empty becomes a key in normal form, once a word stands before a digit in
front. -/
theorem IsTidy.isNormal_keyed (h : IsTidy t.units) (hne : t.isEmpty = false) :
    IsNormal (if (t.units.head?.map CodeUnit.isDigit).getD false then "step_" ++ t else t) := by
  have hstep : ("step_" : Text).units = ("step" : Text).units ++ [CodeUnit.ofChar '_'] := by decide
  obtain ⟨units⟩ := t
  obtain ⟨first, rest, rfl⟩ := List.exists_cons_of_ne_nil (List.isEmpty_eq_false_iff.mp hne)
  rw [List.head?_cons, Option.map_some, Option.getD_some]
  cases hdigit : first.isDigit with
  | true =>
    rw [if_pos rfl]
    refine IsTidy.isNormal ?_ ?_
    · rw [Text.units_append, hstep, List.append_assoc]
      exact h.word_line (List.cons_ne_nil first rest) (by decide)
        (List.all_eq_true.mp (by decide))
    · rw [Text.units_append, hstep]
      exact ⟨'s', rfl, by decide⟩
  | false =>
    have hlower : first.isLower = true := by
      have hfirst := h.keyUnits.2 first rfl
      rwa [isKeyUnit, hdigit, Bool.or_false] at hfirst
    rw [if_neg Bool.false_ne_true]
    exact h.isNormal ⟨first, rfl, hlower⟩

/-- The name of a kind is tidy, and it is not empty. -/
theorem kind_isTidy (kind : ActionKind) : IsTidy kind.name.units ∧ kind.name.isEmpty = false := by
  cases kind <;> decide

/-- Whatever a step is called, its key is in normal form. -/
theorem derive_isNormal (name : Text) (kind : ActionKind) (selector : Option Text) :
    IsNormal (derive name kind.name selector) := by
  unfold derive
  dsimp only
  split
  · next hname => exact (normalize_isTidy name).isNormal_keyed (by simpa using hname)
  · split
    · next hkind => exact (normalize_isTidy _).isNormal_keyed (by simpa using hkind)
    · exact (kind_isTidy kind).1.isNormal_keyed (kind_isTidy kind).2

/-- A text in normal form is the key of every step that it is the name of. -/
theorem derive_of_isNormal (h : IsNormal t) (kind : Text) (selector : Option Text) :
    derive t kind selector = t := by
  obtain ⟨first, hfirst, hlower⟩ := h.first
  have hne : t.isEmpty = false := by
    refine List.isEmpty_eq_false_iff.mpr fun hnil ↦ ?_
    rw [hnil] at hfirst
    cases hfirst
  have hdigit : first.isDigit = false := by
    simp only [CodeUnit.isLower, Bool.and_eq_true, decide_eq_true_eq, UInt16.le_iff_toNat_le,
      UInt16.toNat_ofNat] at hlower
    rw [← Bool.not_eq_true, CodeUnit.isDigit_iff]
    omega
  unfold derive
  dsimp only
  rw [normalize_of_isTidy h.isTidy, hne, Bool.not_false, if_pos rfl, hfirst, Option.map_some,
    Option.getD_some, hdigit, if_neg Bool.false_ne_true]

end ResultKey

/-! ### Steps with the same key -/

/-- The result of a second step takes the place of the result of a first one, whatever was bound
before and whatever the results are. -/
def Step.Collides (first second : Step) : Prop :=
  ∀ (σ : Type) (live : Live σ) (earlier later : Option Value),
    ((live.bindResult first earlier).2.bindResult second later).2.environment.find?
      first.resultKey = later

/-- Steps with results collide just when their keys are equal. -/
theorem Step.collides_iff {first second : Step} (hfirst : first.hasResult = true)
    (hsecond : second.hasResult = true) :
    first.Collides second ↔ first.resultKey = second.resultKey := by
  constructor
  · intro h
    by_contra hne
    have hnone := h Unit (Workflow.idle 0 .quiet ()) (some .null) none
    rw [Live.environment_bindResult hsecond, Environment.find?_set_of_ne _ _ (Ne.symm hne),
      Live.environment_bindResult hfirst, Environment.find?_set_self] at hnone
    cases hnone
  · intro heq σ live earlier later
    rw [Live.environment_bindResult hsecond, heq, Environment.find?_set_self]

namespace ResultKey

/-- The keys of steps are just the texts in normal form: every name, kind and selector has a key of
lower-case letters, digits and single low lines that begins with a letter and does not end with a
low line, and every such text is a key. A step that has a key for its name has the same key, and two
steps with results collide just when their keys are equal. -/
theorem derive_normalForm :
    (∀ key, IsNormal key ↔
      ∃ name kind selector, derive name (ActionKind.name kind) selector = key) ∧
    (∀ name (kind other : ActionKind) selector behind,
      derive (derive name kind.name selector) other.name behind =
        derive name kind.name selector) ∧
    ∀ first second : Step, first.hasResult = true → second.hasResult = true →
      (first.Collides second ↔ first.resultKey = second.resultKey) := by
  refine ⟨fun key ↦ ⟨fun hkey ↦ ?_, ?_⟩, fun name kind other selector behind ↦ ?_, ?_⟩
  · exact ⟨key, .click, none, derive_of_isNormal hkey _ _⟩
  · rintro ⟨name, kind, selector, rfl⟩
    exact derive_isNormal name kind selector
  · exact derive_of_isNormal (derive_isNormal name kind selector) _ _
  · exact fun first second ↦ Step.collides_iff

/-- A click whose name begins with a digit. -/
def secondTab : Step := .act ⟨"2nd Tab", none, none, none, none, none⟩ (.click "#next")

/-- A reading whose name is normalized to the key of the click. -/
def stepSecondTab : Step :=
  .act ⟨"Step: 2nd -- TAB!", none, none, none, none, none⟩ (.getText "h1")

/-- The click has a key in normal form, a step that is called by the key has the same key, and the
reading collides with the click. -/
theorem derive_normalForm_secondTab :
    secondTab.hasResult = true ∧ stepSecondTab.hasResult = true ∧
      IsNormal "step_2nd_tab" ∧
      derive "step_2nd_tab" ActionKind.load.name none = "step_2nd_tab" ∧
      secondTab.Collides stepSecondTab := by
  obtain ⟨hnormal, hagain, hcollides⟩ := derive_normalForm
  have hkey : derive "2nd Tab" ActionKind.click.name (some "#next") = "step_2nd_tab" := by decide
  refine ⟨rfl, rfl, (hnormal _).mpr ⟨_, _, _, hkey⟩, ?_,
    (hcollides secondTab stepSecondTab rfl rfl).mpr (by decide)⟩
  rw [← hkey]
  exact hagain "2nd Tab" .click .load (some "#next") none

end ResultKey

end BrowserFlow
