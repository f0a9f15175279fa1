import BrowserFlow.Proofs.Document.Parts
import BrowserFlow.Proofs.Template.Names
import BrowserFlow.Run.Basic

/-!
Result keys in templates. Whatever a step is called, the key of its result is a
name: it is made of lower-case letters, digits and low lines and does not begin
with a digit (`Step.resultKey_isName`). After the result is bound, the key
between double braces stands for the result, with one exception: three names are
read as literals, and a key that is one of them stands for the literal
(`Live.resolve_bindResult`).
-/

set_option autoImplicit false
set_option relaxedAutoImplicit false

namespace BrowserFlow

/-! ### The units of keys -/

namespace ResultKey

/-- Units of a key: letters, digits and low lines, with no low line in front. -/
def AreKeyUnits (units : List CodeUnit) : Prop :=
  (∀ u ∈ units, isKeyUnit u = true ∨ u = '_') ∧ ∀ u ∈ units.head?, isKeyUnit u = true

instance (units : List CodeUnit) : Decidable (AreKeyUnits units) :=
  decidable_of_iff ((units.all fun u ↦ isKeyUnit u || u == '_') && units.head?.all isKeyUnit)
    (by simp [AreKeyUnits, Option.all_eq_true])

/-- Words are not empty and hold no low line. -/
theorem words_keyUnits {word units : List CodeUnit} (hword : ∀ u ∈ word, isKeyUnit u = true) :
    ∀ w ∈ words word units, w ≠ [] ∧ ∀ u ∈ w, isKeyUnit u = true := by
  have hclose : ∀ found : List CodeUnit, found.isEmpty = false →
      (∀ u ∈ found, isKeyUnit u = true) →
        found.reverse ≠ [] ∧ ∀ u ∈ found.reverse, isKeyUnit u = true := fun found hne hunits ↦
    ⟨by simpa using hne, fun u hu ↦ hunits u (List.mem_reverse.mp hu)⟩
  induction units generalizing word with
  | nil =>
    intro w hw
    cases hempty : word.isEmpty with
    | true => simp [words, hempty] at hw
    | false =>
      simp only [words, hempty, Bool.false_eq_true, if_false, List.mem_singleton] at hw
      exact hw ▸ hclose word hempty hword
  | cons u rest ih =>
    intro w hw
    rw [words] at hw
    split at hw
    · next hu => exact ih (List.forall_mem_cons.mpr ⟨hu, hword⟩) w hw
    · split at hw
      · exact ih (by simp) w hw
      · next hne =>
        rcases List.mem_cons.mp hw with rfl | hw
        · exact hclose word (by simpa using hne) hword
        · exact ih (by simp) w hw

theorem join_areKeyUnits {parts : List (List CodeUnit)}
    (h : ∀ w ∈ parts, w ≠ [] ∧ ∀ u ∈ w, isKeyUnit u = true) :
    AreKeyUnits (Text.join "_" (parts.map Text.mk)).units := by
  induction parts with
  | nil => exact ⟨by simp [Text.join, Text.empty], by simp [Text.join, Text.empty]⟩
  | cons w rest ih =>
    obtain ⟨⟨hne, hw⟩, hrest⟩ := List.forall_mem_cons.mp h
    have hhead : ∀ (more : List CodeUnit), ∀ u ∈ (w ++ more).head?, isKeyUnit u = true := by
      intro more u hu
      obtain ⟨first, others, rfl⟩ := List.exists_cons_of_ne_nil hne
      simp only [List.cons_append, List.head?_cons, Option.mem_def, Option.some.injEq] at hu
      exact hw u (hu ▸ List.mem_cons_self ..)
    cases rest with
    | nil =>
      refine ⟨fun u hu ↦ .inl (hw u hu), fun u hu ↦ hhead [] u ?_⟩
      rw [List.append_nil]
      exact hu
    | cons next others =>
      have hjoin : (Text.join "_" ((w :: next :: others).map Text.mk)).units =
          w ++ (("_" : Text).units ++ (Text.join "_" ((next :: others).map Text.mk)).units) := by
        simp [Text.join]
      rw [hjoin]
      refine ⟨fun u hu ↦ ?_, hhead _⟩
      rcases List.mem_append.mp hu with hu | hu
      · exact .inl (hw u hu)
      · rcases List.mem_append.mp hu with hu | hu
        · exact .inr (List.mem_singleton.mp hu)
        · exact (ih hrest).1 u hu

theorem normalize_areKeyUnits (t : Text) : AreKeyUnits (normalize t).units :=
  join_areKeyUnits (words_keyUnits (by simp))

theorem continuesName_of_isKeyUnit {u : CodeUnit} (h : isKeyUnit u = true ∨ u = '_') :
    u.continuesName = true := by
  rcases h with h | rfl
  · rcases (Bool.or_eq_true _ _).mp h with hlower | hdigit
    · simp [CodeUnit.continuesName, CodeUnit.isLetter, hlower]
    · simp [CodeUnit.continuesName, hdigit]
  · decide

/-- The units of a key make a name, once a word stands before a digit in front. -/
theorem isName_of_areKeyUnits {t : Text} (h : AreKeyUnits t.units) (hne : t.isEmpty = false) :
    (if (t.units.head?.map CodeUnit.isDigit).getD false then "step_" ++ t else t : Text).isName =
      true := by
  obtain ⟨units⟩ := t
  obtain ⟨first, rest, rfl⟩ := List.exists_cons_of_ne_nil (List.isEmpty_eq_false_iff.mp hne)
  have hall : ∀ u ∈ first :: rest, u.continuesName = true := fun u hu ↦
    continuesName_of_isKeyUnit (h.1 u hu)
  cases hdigit : first.isDigit with
  | true =>
    simp only [List.head?_cons, Option.map_some, hdigit, Option.getD_some, if_true]
    exact Text.isName_append (by decide) hall
  | false =>
    have hlower : first.isLower = true := by
      have hfirst := h.2 first rfl
      rwa [isKeyUnit, hdigit, Bool.or_false] at hfirst
    simp only [List.head?_cons, Option.map_some, hdigit, Option.getD_some, Bool.false_eq_true,
      if_false, Text.isName, Bool.and_eq_true, List.all_eq_true]
    refine ⟨?_, fun u hu ↦ hall u (List.mem_cons_of_mem _ hu)⟩
    simp [CodeUnit.beginsName, CodeUnit.isLetter, hlower]

theorem derive_isName (name : Text) {kind : Text} (selector : Option Text)
    (hkind : AreKeyUnits kind.units) (hne : kind.isEmpty = false) :
    (derive name kind selector).isName = true := by
  unfold derive
  dsimp only
  refine isName_of_areKeyUnits ?_ ?_
  · split
    · exact normalize_areKeyUnits name
    · split
      · exact normalize_areKeyUnits _
      · exact hkind
  · split
    · next hname => simpa using hname
    · split
      · next hselector => simpa using hselector
      · exact hne

end ResultKey

/-- The key of a step is a name. -/
theorem Step.resultKey_isName (step : Step) : step.resultKey.isName = true := by
  have hkind : ResultKey.AreKeyUnits step.kind.name.units := by
    cases step.kind <;> decide
  have hne : step.kind.name.isEmpty = false := by cases step.kind <;> decide
  exact ResultKey.derive_isName step.name step.selector? hkind hne

/-! ### Keys that are literals -/

/-- What does not begin like a literal is none. -/
theorem Expression.literalOfName?_eq_none {t : Text}
    (h : t.units.take 2 ≠ ['t', 'r'] ∧ t.units.take 2 ≠ ['f', 'a'] ∧ t.units.take 2 ≠ ['n', 'u']) :
    literalOfName? t = none := by
  have htrue : t ≠ "true" := by
    rintro rfl
    exact h.1 (by decide)
  have hfalse : t ≠ "false" := by
    rintro rfl
    exact h.2.1 (by decide)
  have hnull : t ≠ "null" := by
    rintro rfl
    exact h.2.2 (by decide)
  rw [literalOfName?, if_neg htrue, if_neg hfalse, if_neg hnull]

namespace ResultKey

theorem words_append {beginning : List CodeUnit} (h : ∀ u ∈ beginning, isKeyUnit u = true)
    (word rest : List CodeUnit) :
    words word (beginning ++ rest) = words (beginning.reverse ++ word) rest := by
  induction beginning generalizing word with
  | nil => rfl
  | cons u more ih =>
    obtain ⟨hu, hmore⟩ := List.forall_mem_cons.mp h
    rw [List.cons_append, words, if_pos hu, ih hmore, List.reverse_cons, List.append_assoc]
    rfl

/-- The first word goes on from what was read of it. -/
theorem words_of_ne_nil {word : List CodeUnit} (h : word ≠ []) (units : List CodeUnit) :
    ∃ more others, words word units = (word.reverse ++ more) :: others := by
  induction units generalizing word with
  | nil => exact ⟨[], [], by simp [words, h]⟩
  | cons u rest ih =>
    rw [words]
    split
    · obtain ⟨more, others, hwords⟩ := ih (List.cons_ne_nil u word)
      exact ⟨u :: more, others, by rw [hwords, List.reverse_cons, List.append_assoc]; rfl⟩
    · rw [if_neg (by simpa using h)]
      exact ⟨[], words [] rest, by rw [List.append_nil]⟩

/-- A text that begins with units of a key has a key that begins with them. -/
theorem prefix_normalize {t : Text} {beginning rest : List CodeUnit}
    (ht : t.fold.units = beginning ++ rest) (h : ∀ u ∈ beginning, isKeyUnit u = true)
    (hne : beginning ≠ []) : beginning <+: (normalize t).units := by
  have hword : beginning.reverse ++ [] ≠ [] := by simpa using hne
  obtain ⟨more, others, hwords⟩ := words_of_ne_nil hword rest
  rw [normalize, ht, words_append h, hwords, List.append_nil, List.reverse_reverse]
  cases others with
  | nil => exact ⟨more, rfl⟩
  | cons next others =>
    refine ⟨more ++
      (("_" : Text).units ++ (Text.join "_" ((next :: others).map Text.mk)).units), ?_⟩
    simp [Text.join]

end ResultKey


namespace ResultKey

/-- No key with a word in front is a literal, and no text that begins with a digit. -/
theorem literalOfName?_step (t : Text) : Expression.literalOfName? ("step_" ++ t) = none := by
  have hunits : (("step_" : Text) ++ t).units.take 2 = ['s', 't'] := by
    rw [Text.units_append, List.take_append_of_le_length (by decide)]
    decide
  refine Expression.literalOfName?_eq_none ?_
  rw [hunits]
  decide

theorem literalOfName?_digit {t : Text}
    (h : (t.units.head?.map CodeUnit.isDigit).getD false = true) :
    Expression.literalOfName? t = none := by
  obtain ⟨units⟩ := t
  cases units with
  | nil => simp at h
  | cons first rest =>
    have hdigit : first.isDigit = true := h
    have hother : ∀ (u : CodeUnit) (others : List CodeUnit), u.isDigit = false →
        (first :: rest).take 2 ≠ u :: others := by
      rintro u others hu heq
      rw [(List.cons.inj heq).1, hu] at hdigit
      exact Bool.false_ne_true hdigit
    exact Expression.literalOfName?_eq_none ⟨hother _ _ (by decide), hother _ _ (by decide),
      hother _ _ (by decide)⟩

/-- No key is a literal that comes from the kind of a step. -/
theorem literalOfName?_kind (kind : ActionKind) (selector : Text) :
    Expression.literalOfName? (normalize (kind.name ++ " " ++ selector)) = none := by
  have hbegin : (kind.name.fold.units.take 2).all isKeyUnit = true ∧
      (kind.name.fold.units.take 2).length = 2 ∧ kind.name.fold.units.take 2 ≠ ['t', 'r'] ∧
      kind.name.fold.units.take 2 ≠ ['f', 'a'] ∧ kind.name.fold.units.take 2 ≠ ['n', 'u'] := by
    cases kind <;> decide
  obtain ⟨hunits, hlength, hother⟩ := hbegin
  have hfold : (kind.name ++ " " ++ selector).fold.units = kind.name.fold.units.take 2 ++
      (kind.name.fold.units.drop 2 ++ ((" " : Text) ++ selector).fold.units) := by
    rw [← List.append_assoc, List.take_append_drop]
    simp [Text.fold]
  have hne : kind.name.fold.units.take 2 ≠ [] := by
    intro hnil
    simp [hnil] at hlength
  obtain ⟨more, hmore⟩ := prefix_normalize hfold (List.all_eq_true.mp hunits) hne
  refine Expression.literalOfName?_eq_none ?_
  rw [← hmore, List.take_append_of_le_length hlength.ge, List.take_of_length_le hlength.le]
  exact hother

end ResultKey

/-- The key of a step is a literal just when the name of the step becomes one. -/
theorem Step.literalOfName?_resultKey (step : Step) :
    Expression.literalOfName? step.resultKey =
      Expression.literalOfName? (ResultKey.normalize step.name) := by
  unfold resultKey ResultKey.derive
  dsimp only
  cases hempty : (ResultKey.normalize step.name).isEmpty with
  | false =>
    rw [Bool.not_false, if_pos rfl]
    split
    · next hdigit => rw [ResultKey.literalOfName?_step, ResultKey.literalOfName?_digit hdigit]
    · rfl
  | true =>
    have hname : ResultKey.normalize step.name = Text.empty :=
      congrArg Text.mk (List.isEmpty_iff.mp hempty)
    have hkey : ∀ t, Expression.literalOfName? t = none → Expression.literalOfName?
        (if (t.units.head?.map CodeUnit.isDigit).getD false then "step_" ++ t else t) = none := by
      intro t ht
      split
      · exact ResultKey.literalOfName?_step t
      · exact ht
    rw [hname, Bool.not_true, if_neg Bool.false_ne_true]
    refine hkey _ ?_
    split
    · exact ResultKey.literalOfName?_kind step.kind _
    · cases step.kind <;> rfl

/-! ### Results in templates -/

/-- A value set under the key of a step is what the key stands for in a template, unless the name of
the step becomes a literal. -/
theorem Step.resolve_resultKey (step : Step) (env : Environment) (value : Value) :
    Template.resolve (env.set step.resultKey (some value)).scope
        (Template.enclosed step.resultKey) =
      .ok ((Expression.literalOfName? (ResultKey.normalize step.name)).getD value) := by
  rw [Template.resolve_enclosed step.resultKey_isName, ← step.literalOfName?_resultKey]
  exact Expression.evaluate_ofName _ _ (Environment.find?_set_self _ _ _)

namespace Live

variable {σ : Type}

theorem environment_bindResult {step : Step} (h : step.hasResult = true) (slot : Option Value)
    (live : Live σ) : (live.bindResult step slot).2.environment =
      live.environment.set step.resultKey slot := by
  rw [bindResult, if_pos h]
  rfl

/-- After the result of a step is bound, a template that is its key stands for the result, unless
the name of the step becomes a literal; then it stands for the literal. -/
theorem resolve_bindResult (step : Step) (h : step.hasResult = true) (live : Live σ)
    (value : Value) :
    Template.resolve (live.bindResult step (some value)).2.environment.scope
        (Template.enclosed step.resultKey) =
      .ok ((Expression.literalOfName? (ResultKey.normalize step.name)).getD value) := by
  rw [environment_bindResult h]
  exact step.resolve_resultKey live.environment value

/-- A click whose name begins with a digit. -/
def secondPage : Step := .act ⟨"2nd page", none, none, none, none, none⟩ (.click "#next")

/-- The key of the click has a word in front, and stands for its result. -/
theorem resolve_bindResult_secondPage : secondPage.resultKey = "step_2nd_page" ∧
    Template.resolve ((Workflow.idle 0 .quiet ()).bindResult secondPage
        (some (.bool true))).2.environment.scope (Template.enclosed secondPage.resultKey) =
      .ok (.bool true) :=
  ⟨by decide, resolve_bindResult secondPage rfl (Workflow.idle 0 .quiet ()) (.bool true)⟩

/-- A document with a step whose name becomes a literal. -/
def literalName : Datum :=
  .object [("name", .text "titles"), ("version", .text "1"), ("steps", .sequence [
    .object [("name", .text "Null"), ("action", .text "get_text"), ("selector", .text "h1")]
      []])] []

/-- The document is accepted, and the result of its step is bound, but no template that is the key
of the step stands for it. -/
theorem resolve_literalName : ∃ validated step, Workflow.validate literalName = .ok validated ∧
    step ∈ validated.workflow.steps ∧ step.hasResult = true ∧
    ∀ title, Template.resolve ((Workflow.idle 0 .quiet ()).bindResult step
        (some (.text title))).2.environment.scope (Template.enclosed step.resultKey) =
      .ok .null := by
  have haccepted : (Workflow.validate literalName).toOption.map (fun v ↦
      v.workflow.steps.map fun step ↦ (step.name, step.hasResult)) =
        some [(("Null" : Text), true)] := by decide +kernel
  obtain ⟨validated, hvalidated, hsteps⟩ := Option.map_eq_some_iff.mp haccepted
  obtain ⟨step, hstep, hshape⟩ := List.map_eq_singleton_iff.mp hsteps
  obtain ⟨hname, hresult⟩ := Prod.mk.inj hshape
  refine ⟨validated, step, Workflow.validate_of_toOption hvalidated,
    hstep ▸ List.mem_singleton_self step, hresult, fun title ↦ ?_⟩
  have hliteral : Expression.literalOfName? (ResultKey.normalize step.name) = some .null := by
    rw [hname]
    rfl
  rw [environment_bindResult hresult, step.resolve_resultKey, hliteral]
  rfl

end Live

end BrowserFlow
