import BrowserFlow.Condition.Evaluation
import BrowserFlow.Proofs.Template.Names

/-!
What a value and a condition read of a scope. The roots of an expression are the names at the heads
of its paths; those of a template are the roots of its placeholders, and a template that cannot be
read has none, because its fault does not depend on a scope. The roots of a value are those of its
templates and the roots of a condition those of its operands. Two scopes that agree on the roots,
in what is bound and in what it is bound to, are the same to whatever has these roots: it gives the
same value in both, or the same fault (`Scope.resolution_reads_roots`).
-/

set_option autoImplicit false
set_option relaxedAutoImplicit false

namespace BrowserFlow

/-! ### Roots -/

/-- The names at the heads of the paths in an expression, from left to right. -/
def Expression.roots : Expression → List Text
  | .literal _ => []
  | .path root _ => [root]
  | .negate operand => operand.roots
  | .binary _ left right => left.roots ++ right.roots

/-- The roots in a part of a template. -/
def Part.roots : Part → List Text
  | .text _ => []
  | .placeholder expression => expression.roots

/-- The roots in a template. -/
def Template.roots (source : Text) : List Text :=
  match read source with
  | .ok parts => parts.flatMap Part.roots
  | .error _ => []

/-- The roots in the templates of a value. -/
def Value.roots (value : Value) : List Text := value.templates.flatMap Template.roots

/-- The roots in the operands of a condition. -/
def Condition.roots (condition : Condition) : List Text := condition.operands.flatMap Value.roots

/-! ### Scopes that agree -/

/-- Each of some names is bound in both scopes to the same value, or in neither. -/
def Scope.AgreeOn (names : List Text) (first second : Scope) : Prop :=
  ∀ name ∈ names, first.find? name = second.find? name

namespace Scope.AgreeOn

variable {first second : Scope}

theorem of_append {names others : List Text} (h : AgreeOn (names ++ others) first second) :
    AgreeOn names first second ∧ AgreeOn others first second :=
  List.forall_mem_append.mp h

theorem of_mem {α : Type} {roots : α → List Text} {sources : List α}
    (h : AgreeOn (sources.flatMap roots) first second) {source : α} (hmem : source ∈ sources) :
    AgreeOn (roots source) first second :=
  fun name hname ↦ h name (List.mem_flatMap.mpr ⟨source, hmem, hname⟩)

/-! ### Templates -/

/-- An expression reads what stands at the heads of its paths. -/
theorem evaluate {expression : Expression} (h : AgreeOn expression.roots first second) :
    expression.evaluate first = expression.evaluate second := by
  induction expression with
  | literal value => rfl
  | path root segments =>
    rw [Expression.evaluate, Expression.evaluate, h root (List.mem_singleton_self root)]
  | negate operand ih => rw [Expression.evaluate, Expression.evaluate, ih h]
  | binary operator left right ihleft ihright =>
    obtain ⟨hleft, hright⟩ := h.of_append
    rw [Expression.evaluate, Expression.evaluate, ihleft hleft, ihright hright]

theorem render {part : Part} (h : AgreeOn part.roots first second) :
    Template.Part.render first part = Template.Part.render second part := by
  cases part with
  | text t => rfl
  | placeholder expression => rw [Template.Part.render, Template.Part.render, evaluate h]

theorem renderAll {parts : List Part} (h : AgreeOn (parts.flatMap Part.roots) first second) :
    Template.renderAll first parts = Template.renderAll second parts := by
  induction parts with
  | nil => rfl
  | cons part rest ih =>
    obtain ⟨hpart, hrest⟩ := of_append h
    rw [Template.renderAll, Template.renderAll, render hpart, ih hrest]

theorem evaluateParts {parts : List Part} (h : AgreeOn (parts.flatMap Part.roots) first second) :
    Template.evaluateParts first parts = Template.evaluateParts second parts := by
  -- One placeholder alone stands for its value; everything else is put together as text.
  unfold Template.evaluateParts
  split
  · exact evaluate (h.of_mem (List.mem_singleton_self _))
  · rw [renderAll h]

/-- What a template is read as, and whether it can be read, does not depend on a scope. -/
theorem resolve_template {source : Text} (h : AgreeOn (Template.roots source) first second) :
    Template.resolve first source = Template.resolve second source := by
  rw [Template.roots] at h
  rw [Template.resolve, Template.resolve]
  cases hread : Template.read source with
  | error fault => rfl
  | ok parts =>
    rw [hread] at h
    simp only [bind, Except.bind, evaluateParts h]

/-! ### Values -/

/-- A text without placeholders is not among the templates, and stands for itself in every scope. -/
theorem resolve_text {source : Text} (h : AgreeOn (Value.text source).roots first second) :
    Template.resolve first source = Template.resolve second source := by
  by_cases hplaceholder : Template.hasPlaceholder source = true
  · rw [Value.roots, Value.templates, if_pos hplaceholder] at h
    exact resolve_template (h.of_mem (List.mem_singleton_self source))
  · rw [Template.resolve, Template.resolve, if_neg hplaceholder, if_neg hplaceholder]

mutual

/-- A value is resolved alike in scopes that agree on its roots. -/
theorem resolve (value : Value) (h : AgreeOn value.roots first second) :
    value.resolve first = value.resolve second := by
  cases value with
  | text source => exact resolve_text h
  | sequence items => rw [Value.resolve, Value.resolve, resolveItems items h]
  | mapping entries => rw [Value.resolve, Value.resolve, resolveEntries [] entries h]
  | null | bool _ | number _ => rfl

theorem resolveItems (items : List Value)
    (h : AgreeOn ((Value.templatesOfItems items).flatMap Template.roots) first second) :
    Value.resolveItems first items = Value.resolveItems second items := by
  cases items with
  | nil => rfl
  | cons item rest =>
    rw [Value.templatesOfItems, List.flatMap_append] at h
    obtain ⟨hitem, hrest⟩ := h.of_append
    rw [Value.resolveItems, Value.resolveItems, resolve item hitem, resolveItems rest hrest]

theorem resolveEntries (done : Entries Value) (entries : List (Text × Value))
    (h : AgreeOn ((Value.templatesOfEntries entries).flatMap Template.roots) first second) :
    Value.resolveEntries first done entries = Value.resolveEntries second done entries := by
  cases entries with
  | nil => rfl
  | cons entry rest =>
    obtain ⟨key, value⟩ := entry
    rw [Value.templatesOfEntries, List.flatMap_append] at h
    obtain ⟨hvalue, hrest⟩ := h.of_append
    rw [Value.resolveEntries, Value.resolveEntries, resolve value hvalue]
    exact bind_congr fun resolved ↦ resolveEntries _ rest hrest

end

/-! ### Conditions -/

theorem isThere {operand : Value} (h : AgreeOn operand.roots first second) :
    Comparison.isThere first operand = Comparison.isThere second operand := by
  rw [Comparison.isThere, Comparison.isThere, resolve operand h]

/-- A comparison reads both operands or, for what is there, the left one only; a right operand that
is absent counts as null and has no roots. -/
theorem evaluate_comparison {comparison : Comparison}
    (h : AgreeOn (Condition.compare comparison).roots first second) :
    comparison.evaluate first = comparison.evaluate second := by
  have hoperand : ∀ operand ∈ (Condition.compare comparison).operands,
      AgreeOn operand.roots first second := fun _ hmem ↦ of_mem h hmem
  rw [Condition.operands] at hoperand
  have hleft : AgreeOn comparison.left.roots first second := by
    refine hoperand _ ?_
    split <;> exact List.mem_cons_self
  have hright : AgreeOn (comparison.right.getD .null).roots first second := by
    cases hpresent : comparison.right with
    | none => exact fun _ hname ↦ absurd hname List.not_mem_nil
    | some right =>
      refine hoperand right ?_
      rw [hpresent]
      exact List.mem_cons_of_mem _ (List.mem_singleton_self right)
  unfold Comparison.evaluate
  rw [isThere hleft, resolve _ hleft, resolve _ hright]

mutual

/-- A condition holds alike in scopes that agree on its roots. -/
theorem evaluate_condition (condition : Condition) (h : AgreeOn condition.roots first second) :
    condition.evaluate first = condition.evaluate second := by
  cases condition with
  | compare comparison => exact evaluate_comparison h
  | all conditions => exact evaluateAll conditions h
  | any conditions => exact evaluateAny conditions h
  | not condition =>
    rw [Condition.evaluate, Condition.evaluate, evaluate_condition condition h]

theorem evaluateAll (conditions : List Condition)
    (h : AgreeOn ((Condition.operandsOfList conditions).flatMap Value.roots) first second) :
    Condition.evaluateAll first conditions = Condition.evaluateAll second conditions := by
  cases conditions with
  | nil => rfl
  | cons condition rest =>
    rw [Condition.operandsOfList, List.flatMap_append] at h
    obtain ⟨hcondition, hrest⟩ := h.of_append
    rw [Condition.evaluateAll, Condition.evaluateAll, evaluate_condition condition hcondition,
      evaluateAll rest hrest]

theorem evaluateAny (conditions : List Condition)
    (h : AgreeOn ((Condition.operandsOfList conditions).flatMap Value.roots) first second) :
    Condition.evaluateAny first conditions = Condition.evaluateAny second conditions := by
  cases conditions with
  | nil => rfl
  | cons condition rest =>
    rw [Condition.operandsOfList, List.flatMap_append] at h
    obtain ⟨hcondition, hrest⟩ := h.of_append
    rw [Condition.evaluateAny, Condition.evaluateAny, evaluate_condition condition hcondition,
      evaluateAny rest hrest]

end

end Scope.AgreeOn

/-- Values and conditions depend on a scope through their roots only. In two scopes that agree on
the roots of a value it is resolved to the same value or has the same fault, and in two scopes that
agree on the roots of a condition it holds in both, fails to hold in both or has the same fault,
whatever else is bound in either. -/
theorem Scope.resolution_reads_roots (first second : Scope) :
    (∀ value : Value, AgreeOn value.roots first second →
      value.resolve first = value.resolve second) ∧
    (∀ condition : Condition, AgreeOn condition.roots first second →
      condition.evaluate first = condition.evaluate second) :=
  ⟨AgreeOn.resolve, AgreeOn.evaluate_condition⟩

theorem Value.roots_enclosed {name : Text} (h : name.isName = true) :
    (Value.text (Template.enclosed name)).roots = (Expression.ofName name).roots := by
  rw [Value.roots, Value.templates, if_pos (Template.hasPlaceholder_enclosed name),
    List.flatMap_singleton, Template.roots, Template.read_enclosed h]
  exact List.flatMap_singleton _ _

/-- A name that is not a root may be bound in one of the scopes only; of the roots one is bound to
the same value in both and the other in neither. -/
theorem Scope.resolution_reads_roots_secret :
    let first := Scope.ofEntries [("user", .text "a"), ("secret", .bool true)]
    let second := Scope.ofEntries [("user", .text "a")]
    let user : Value := .text (Template.enclosed "user")
    let other : Value := .text (Template.enclosed "other")
    (first.find? "secret").isSome = true ∧ (second.find? "secret").isSome = false ∧
      user.resolve first = user.resolve second ∧
      (Condition.not (.compare ⟨.equals, user, some other⟩)).evaluate first =
        (Condition.not (.compare ⟨.equals, user, some other⟩)).evaluate second := by
  intro first second user other
  have huser : user.roots = ["user"] := Value.roots_enclosed (by decide)
  have hother : other.roots = ["other"] := Value.roots_enclosed (by decide)
  have hagree : AgreeOn (user.roots ++ other.roots) first second := by
    rw [huser, hother]
    exact List.forall_mem_cons.mpr ⟨rfl, List.forall_mem_singleton.mpr rfl⟩
  refine ⟨rfl, rfl, (resolution_reads_roots first second).1 user hagree.of_append.1,
    (resolution_reads_roots first second).2 _ ?_⟩
  rwa [← List.append_nil other.roots] at hagree

end BrowserFlow
