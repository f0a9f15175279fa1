import BrowserFlow.Condition.Evaluation
import BrowserFlow.Proofs.Fault.Thrown
import BrowserFlow.Run.Call
import BrowserFlow.Run.Cursor
import BrowserFlow.Workflow.Checking

/-!
Which templates a run can find unreadable. A computation is confined to some
sources when every template it fails to read is one of them. Expressions read no
templates at all, a text only itself, and what is built from texts is confined to
the templates that are collected from its operands: values, conditions
(`Condition.evaluate_confined`), the operands of loops
(`Iteration.beginLoop_confined`) and the tasks of actions
(`Action.task_confined`). A cursor only reads the condition of its loop
(`Cursor.next_confined`).
-/

set_option autoImplicit false
set_option relaxedAutoImplicit false

namespace BrowserFlow

namespace Fault

/-- A fault that, if it is about a template, is about one of some sources, which cannot be read. -/
def ReadFrom (sources : List Text) (fault : Fault) : Prop :=
  ∀ source flaw, fault = .template source flaw →
    source ∈ sources ∧ Template.read source = .error (.template source flaw)

variable {sources others : List Text} {fault : Fault}

theorem ReadFrom.of_kind (h : fault.kind ≠ .template) : fault.ReadFrom sources := by
  rintro source flaw rfl
  exact absurd rfl h

theorem ReadFrom.mono (hsub : sources ⊆ others) (h : fault.ReadFrom sources) :
    fault.ReadFrom others := by
  intro source flaw hfault
  obtain ⟨hmem, hread⟩ := h source flaw hfault
  exact ⟨hsub hmem, hread⟩

end Fault

/-- A computation that fails to read templates only from some sources. -/
abbrev Confined {α : Type} (sources : List Text) (x : Except Fault α) : Prop :=
  ThrowsOnly (Fault.ReadFrom sources) x

theorem ThrowsOnly.widen {α : Type} {sources others : List Text} {x : Except Fault α}
    (hx : Confined sources x) (hsub : sources ⊆ others) : Confined others x :=
  hx.mono fun _ ↦ Fault.ReadFrom.mono hsub

/-! ### Expressions -/

namespace Segment

theorem read_confined {sources : List Text} (target : Value) (segment : Segment)
    (reference : Text) : Confined sources (segment.read target reference) := by
  unfold read
  split
  · exact .error (.of_kind (by simp [Fault.kind]))
  · split
    · exact .ok _
    · split
      · exact .ok _
      · exact .error (.of_kind (by simp [Fault.kind]))
  · split
    · exact .ok _
    · exact .error (.of_kind (by simp [Fault.kind]))
  · split
    · exact .ok _
    · exact .error (.of_kind (by simp [Fault.kind]))
  · exact .error (.of_kind (by simp [Fault.kind]))

end Segment

namespace Expression

theorem follow_confined {sources : List Text} (segments : List Segment) (target : Value)
    (reference : Text) : Confined sources (follow target reference segments) := by
  induction segments generalizing target reference with
  | nil => exact .ok target
  | cons segment rest ih =>
    rw [follow]
    have hread : Confined sources (segment.read target (reference ++ segment.written)) :=
      segment.read_confined target _
    cases hresult : segment.read target (reference ++ segment.written) with
    | error fault =>
      rw [hresult] at hread
      exact hread
    | ok next => exact ih next _

theorem combine_confined {sources : List Text} (operator : Operator) (left right : Value) :
    Confined sources (combine operator left right) := by
  unfold combine
  split
  · exact .ok _
  · split
    · unfold calculate
      split
      · exact .error (.of_kind (by simp [Fault.kind]))
      · dsimp only
        split
        · exact .ok _
        · exact .error (.of_kind (by simp [Fault.kind]))
    · exact .error (.of_kind (by simp [Fault.kind]))

/-- An expression reads no templates. -/
theorem evaluate_confined {sources : List Text} (scope : Scope) (expression : Expression) :
    Confined sources (expression.evaluate scope) := by
  induction expression with
  | literal value => exact .ok value
  | path root segments =>
    rw [evaluate]
    split
    · exact follow_confined segments _ root
    · exact .error (.of_kind (by simp [Fault.kind]))
  | negate operand ih =>
    rw [evaluate]
    refine .bind ih fun value ↦ ?_
    split
    · exact .ok _
    · exact .error (.of_kind (by simp [Fault.kind]))
  | binary operator left right ihleft ihright =>
    rw [evaluate]
    exact .bind ihleft fun l ↦ .bind ihright fun r ↦ combine_confined operator l r

end Expression

/-! ### Texts -/

namespace Template

variable {sources : List Text} {scope : Scope} {source : Text}

theorem renderAll_confined (parts : List Part) : Confined sources (renderAll scope parts) := by
  induction parts with
  | nil => exact .ok _
  | cons part rest ih =>
    rw [renderAll]
    refine .bind ?_ fun first ↦ .bind ih fun others ↦ .ok _
    cases part with
    | text t => exact .ok t
    | placeholder expression =>
      exact .bind (expression.evaluate_confined scope) fun value ↦ .ok _

theorem evaluateParts_confined (parts : List Part) :
    Confined sources (evaluateParts scope parts) := by
  unfold evaluateParts
  split
  · next expression => exact expression.evaluate_confined scope
  · exact .bind (renderAll_confined parts) fun words ↦ .ok _

theorem read_confined (source : Text) : Confined [source] (read source) := by
  rintro _ hthrown found flaw rfl
  have hread := hthrown
  unfold read at hthrown
  split at hthrown
  · simp at hthrown
  · obtain ⟨rfl, rfl⟩ := Fault.template.inj (Except.error.inj hthrown)
    exact ⟨List.mem_singleton.mpr rfl, hread⟩

/-- A text reads no template but itself. -/
theorem resolve_confined (scope : Scope) (source : Text) :
    Confined (Value.templates (.text source)) (resolve scope source) := by
  unfold resolve Value.templates
  split
  · exact .bind (read_confined source) evaluateParts_confined
  · exact .ok _

theorem resolve_of_mem (h : source ∈ sources) : Confined sources (resolve scope source) := by
  refine (resolve_confined scope source).widen fun found hfound ↦ ?_
  rw [Value.templates] at hfound
  split at hfound
  · rwa [List.mem_singleton.mp hfound]
  · cases hfound

/-- Only a text with a placeholder can throw anything. -/
theorem resolve_throwsOnly {kind : Fault → Prop}
    (h : ∀ found ∈ Value.templates (.text source), ThrowsOnly kind (resolve scope found)) :
    ThrowsOnly kind (resolve scope source) := by
  by_cases hplaceholder : hasPlaceholder source = true
  · refine h source ?_
    rw [Value.templates, if_pos hplaceholder]
    exact List.mem_singleton.mpr rfl
  · rw [resolve, if_neg hplaceholder]
    exact .ok _

end Template

/-! ### Values -/

theorem Amount.resolve_confined (scope : Scope) (label : Text) (amount : Amount) :
    Confined amount.toValue.templates (amount.resolve scope label) := by
  cases amount with
  | number x => exact .ok x
  | template source =>
    refine .bind (Template.resolve_confined scope source) fun value ↦ ?_
    split
    · exact .ok _
    · split
      · exact .ok _
      · exact .error (.of_kind (by simp [Fault.kind]))
    · exact .error (.of_kind (by simp [Fault.kind]))

namespace Value

variable {kind : Fault → Prop} {scope : Scope}

mutual

/-- A value throws what its templates throw when they are resolved. -/
theorem resolve_throwsOnly {value : Value}
    (h : ∀ source ∈ value.templates, ThrowsOnly kind (Template.resolve scope source)) :
    ThrowsOnly kind (value.resolve scope) := by
  cases value with
  | text source => exact Template.resolve_throwsOnly h
  | sequence items =>
    rw [resolve]
    exact .bind (resolveItems_throwsOnly h) fun _ ↦ .ok _
  | mapping entries =>
    rw [resolve]
    exact .bind (resolveEntries_throwsOnly [] h) fun _ ↦ .ok _
  | null => exact .ok _
  | bool b => exact .ok _
  | number x => exact .ok _

theorem resolveItems_throwsOnly {items : List Value}
    (h : ∀ source ∈ templatesOfItems items, ThrowsOnly kind (Template.resolve scope source)) :
    ThrowsOnly kind (resolveItems scope items) := by
  cases items with
  | nil => exact .ok []
  | cons item rest =>
    rw [templatesOfItems] at h
    obtain ⟨hitem, hrest⟩ := List.forall_mem_append.mp h
    rw [resolveItems]
    exact .bind (resolve_throwsOnly hitem) fun _ ↦
      .bind (resolveItems_throwsOnly hrest) fun _ ↦ .ok _

theorem resolveEntries_throwsOnly (done : Entries Value) {entries : List (Text × Value)}
    (h : ∀ source ∈ templatesOfEntries entries, ThrowsOnly kind (Template.resolve scope source)) :
    ThrowsOnly kind (resolveEntries scope done entries) := by
  cases entries with
  | nil => exact .ok done
  | cons entry rest =>
    obtain ⟨key, value⟩ := entry
    rw [templatesOfEntries] at h
    obtain ⟨hvalue, hrest⟩ := List.forall_mem_append.mp h
    rw [resolveEntries]
    exact .bind (resolve_throwsOnly hvalue) fun _ ↦ resolveEntries_throwsOnly _ hrest

end

/-- A value reads only the templates that are collected from it. -/
theorem resolve_confined (scope : Scope) (value : Value) :
    Confined value.templates (value.resolve scope) :=
  resolve_throwsOnly fun _ ↦ Template.resolve_of_mem

/-- The templates of one of several values are among those of all. -/
theorem templates_subset {value : Value} {values : List Value} (h : value ∈ values) :
    value.templates ⊆ values.flatMap templates :=
  fun _ hsource ↦ List.mem_flatMap.mpr ⟨value, h, hsource⟩

end Value

/-! ### Conditions -/

namespace Comparison

variable {sources : List Text}

theorem equal_confined (left right : Value) : Confined sources (equal left right) := by
  unfold equal
  split
  all_goals first
    | exact .ok _
    | (split
       · exact .ok _
       · exact .error (.of_kind (by simp [mismatch, Fault.kind])))

theorem order_confined (relation : Relation) (left right : Value) :
    Confined sources (order relation left right) := by
  unfold order
  split
  · exact .ok _
  · exact .error (.of_kind (by simp [mismatch, Fault.kind]))

theorem holds_confined (left right : Value) : Confined sources (holds left right) := by
  unfold holds
  split
  · split
    · exact .error (.of_kind (by simp [mismatch, Fault.kind]))
    · exact .error (.of_kind (by simp [mismatch, Fault.kind]))
    · exact .error (.of_kind (by simp [mismatch, Fault.kind]))
    · exact .ok _
  · exact .ok _
  · split
    · exact .ok _
    · exact .error (.of_kind (by simp [mismatch, Fault.kind]))
  · exact .error (.of_kind (by simp [mismatch, Fault.kind]))

theorem texts_confined (relation : Relation) (left right : Value) :
    Confined sources (texts relation left right) := by
  unfold texts
  split
  · exact .ok _
  · exact .error (.of_kind (by simp [mismatch, Fault.kind]))

/-- Values that are resolved are compared without reading templates. -/
theorem decide_confined (relation : Relation) (left right : Value) :
    Confined sources (decide relation left right) := by
  cases relation with
  | equals => exact equal_confined left right
  | notEquals => exact .bind (equal_confined left right) fun _ ↦ .ok _
  | lessThan => exact .bind (order_confined .lessThan left right) fun _ ↦ .ok _
  | lessThanOrEquals => exact .bind (order_confined .lessThanOrEquals left right) fun _ ↦ .ok _
  | greaterThan => exact .bind (order_confined .greaterThan left right) fun _ ↦ .ok _
  | greaterThanOrEquals =>
    exact .bind (order_confined .greaterThanOrEquals left right) fun _ ↦ .ok _
  | contains => exact holds_confined left right
  | notContains => exact .bind (holds_confined left right) fun _ ↦ .ok _
  | startsWith => exact .bind (texts_confined .startsWith left right) fun _ ↦ .ok _
  | endsWith => exact .bind (texts_confined .endsWith left right) fun _ ↦ .ok _
  | matchesPattern =>
    refine .bind (texts_confined .matchesPattern left right) fun ⟨subject, source⟩ ↦ ?_
    dsimp only
    split
    · exact .ok _
    · exact .error (.of_kind (by simp [Fault.kind]))
  | «exists» => exact .ok _
  | notExists => exact .ok _

theorem isThere_confined (scope : Scope) (operand : Value) :
    Confined operand.templates (isThere scope operand) := by
  have hresolve := operand.resolve_confined scope
  rw [isThere]
  cases hresult : operand.resolve scope with
  | ok value => exact .ok _
  | error fault =>
    rw [hresult] at hresolve
    cases fault with
    | unresolved reference => exact .ok false
    | _ => exact hresolve.rethrow

theorem evaluate_confined (scope : Scope) (c : Comparison) :
    Confined ((Condition.compare c).operands.flatMap Value.templates) (c.evaluate scope) := by
  obtain ⟨relation, left, right⟩ := c
  have hleft : left ∈ (Condition.compare ⟨relation, left, right⟩).operands := by
    cases right <;> simp [Condition.operands]
  have hthere := (isThere_confined scope left).widen (Value.templates_subset hleft)
  have hboth : Confined
      ((Condition.compare ⟨relation, left, right⟩).operands.flatMap Value.templates)
      (do decide relation (← left.resolve scope) (← (right.getD .null).resolve scope)) := by
    refine .bind ((left.resolve_confined scope).widen (Value.templates_subset hleft)) fun l ↦ ?_
    refine .bind ?_ fun r ↦ decide_confined relation l r
    cases right with
    | none => exact .ok _
    | some operand =>
      exact (operand.resolve_confined scope).widen
        (Value.templates_subset (by simp [Condition.operands]))
  cases relation with
  | «exists» => exact hthere
  | notExists => exact .bind hthere fun _ ↦ .ok _
  | _ => exact hboth

end Comparison

namespace Condition

mutual

/-- A condition reads only the templates that are collected from it. -/
theorem evaluate_confined (scope : Scope) (condition : Condition) :
    Confined (condition.operands.flatMap Value.templates) (condition.evaluate scope) := by
  cases condition with
  | compare c => exact c.evaluate_confined scope
  | all conditions => exact evaluateAll_confined scope conditions
  | any conditions => exact evaluateAny_confined scope conditions
  | not condition => exact .bind (evaluate_confined scope condition) fun _ ↦ .ok _

theorem evaluateAll_confined (scope : Scope) (conditions : List Condition) :
    Confined ((operandsOfList conditions).flatMap Value.templates)
      (evaluateAll scope conditions) := by
  cases conditions with
  | nil => exact .ok true
  | cons condition rest =>
    rw [evaluateAll, operandsOfList, List.flatMap_append]
    refine .bind ((evaluate_confined scope condition).widen (List.subset_append_left _ _))
      fun holds ↦ ?_
    split
    · exact (evaluateAll_confined scope rest).widen (List.subset_append_right _ _)
    · exact .ok false

theorem evaluateAny_confined (scope : Scope) (conditions : List Condition) :
    Confined ((operandsOfList conditions).flatMap Value.templates)
      (evaluateAny scope conditions) := by
  cases conditions with
  | nil => exact .ok false
  | cons condition rest =>
    rw [evaluateAny, operandsOfList, List.flatMap_append]
    refine .bind ((evaluate_confined scope condition).widen (List.subset_append_left _ _))
      fun holds ↦ ?_
    split
    · exact .ok true
    · exact (evaluateAny_confined scope rest).widen (List.subset_append_right _ _)

end

end Condition

/-! ### Loops -/

/-- A turn leaves a condition to evaluate only where there was this condition before. -/
theorem Cursor.course_of_next {cursor : Cursor} {scope : Scope} {turn : Turn}
    (hnext : cursor.next scope = .ok turn) {condition : Condition} {limit : Option Number}
    (hcourse : turn.cursor.course = .whileHolds condition limit) :
    cursor.course = .whileHolds condition limit := by
  unfold next at hnext
  split at hnext
  · next hbefore =>
    split at hnext
    · obtain rfl := Except.ok.inj hnext
      exact hcourse
    · split at hnext
      · simp at hnext
      · obtain rfl := Except.ok.inj hnext
        exact hcourse
      · obtain rfl := Except.ok.inj hnext
        exact hcourse
  · split at hnext
    · obtain rfl := Except.ok.inj hnext
      simp [Cursor.turn] at hcourse
    · obtain rfl := Except.ok.inj hnext
      exact hcourse
  · split at hnext
    · obtain rfl := Except.ok.inj hnext
      exact hcourse
    · obtain rfl := Except.ok.inj hnext
      simp [Cursor.turn] at hcourse

namespace Iteration

theorem course_confined (scope : Scope) (spec : Iteration) :
    Confined (spec.operands.flatMap Value.templates) (spec.course scope) := by
  cases spec with
  | whileHolds condition limit => exact .ok _
  | range counter start stop step =>
    have hamount : ∀ (label : Text) (amount : Amount),
        amount.toValue ∈ (range counter start stop step).operands →
          Confined ((range counter start stop step).operands.flatMap Value.templates)
            (amount.resolve scope label) :=
      fun label amount h ↦ (amount.resolve_confined scope label).widen (Value.templates_subset h)
    refine .bind (hamount _ start (by simp [operands])) fun first ↦ ?_
    refine .bind (hamount _ stop (by simp [operands])) fun last ↦ ?_
    have hpace : ∀ pace : Number, Confined
        ((range counter start stop step).operands.flatMap Value.templates)
        (if pace.isZero then .error (.mismatch .zeroStep)
          else .ok (Course.range (some counter) first last pace)) := by
      intro pace
      split
      · exact .error (.of_kind (by simp [Fault.kind]))
      · exact .ok _
    cases step with
    | none => exact .bind (.ok _) hpace
    | some amount => exact .bind (hamount _ amount (by simp [operands])) hpace
  | forEach counter items =>
    refine .bind ((items.resolve_confined scope).widen
      (Value.templates_subset (by simp [operands]))) fun resolved ↦ ?_
    split
    · exact .ok _
    · exact .error (.of_kind (by simp [Fault.kind]))
  | times count counter =>
    refine .bind ((count.resolve_confined scope _).widen
      (Value.templates_subset (by simp [operands]))) fun turns ↦ ?_
    split
    · exact .ok _
    · exact .error (.of_kind (by simp [Fault.kind]))

/-- The operands of a loop read only the templates that are collected from it. -/
theorem beginLoop_confined (scope : Scope) (spec : Iteration) :
    Confined (spec.operands.flatMap Value.templates) (spec.beginLoop scope) := by
  have hcourse := spec.course_confined scope
  unfold beginLoop
  split
  · exact .ok _
  · next fault hfault =>
    rw [hfault] at hcourse
    exact hcourse.rethrow

theorem eq_whileHolds_of_course {spec : Iteration} {scope : Scope} {condition : Condition}
    {limit : Option Number} (h : spec.course scope = .ok (.whileHolds condition limit)) :
    spec = .whileHolds condition limit := by
  cases spec with
  | whileHolds _ _ =>
    obtain ⟨rfl, rfl⟩ := Course.whileHolds.inj (Except.ok.inj h)
    rfl
  | range counter start stop step =>
    obtain ⟨first, -, h⟩ := Except.parts_of_bind h
    obtain ⟨last, -, h⟩ := Except.parts_of_bind h
    cases step with
    | none =>
      obtain ⟨pace, -, h⟩ := Except.parts_of_bind h
      dsimp only at h
      split at h <;> simp at h
    | some amount =>
      obtain ⟨pace, -, h⟩ := Except.parts_of_bind h
      dsimp only at h
      split at h <;> simp at h
  | forEach counter items =>
    obtain ⟨resolved, -, h⟩ := Except.parts_of_bind h
    split at h <;> simp at h
  | times count counter =>
    obtain ⟨turns, -, h⟩ := Except.parts_of_bind h
    split at h <;> simp at h

theorem eq_whileHolds_of_beginLoop {spec : Iteration} {scope : Scope} {cursor : Cursor}
    (hbegin : spec.beginLoop scope = .ok cursor) {condition : Condition} {limit : Option Number}
    (hcourse : cursor.course = .whileHolds condition limit) :
    spec = .whileHolds condition limit := by
  unfold beginLoop at hbegin
  split at hbegin
  · next course hspec =>
    obtain rfl := Except.ok.inj hbegin
    obtain rfl : course = .whileHolds condition limit := hcourse
    exact eq_whileHolds_of_course hspec
  · simp at hbegin

/-- The cursors that a loop can have: the one it begins with, and those behind its turns. -/
inductive Drives (spec : Iteration) : Cursor → Prop
  /-- The loop begins. -/
  | first {scope : Scope} {cursor : Cursor} (hbegin : spec.beginLoop scope = .ok cursor) :
      Drives spec cursor
  /-- The loop was asked for a turn. -/
  | next {scope : Scope} {cursor : Cursor} {turn : Turn} (hdrives : Drives spec cursor)
      (hnext : cursor.next scope = .ok turn) : Drives spec turn.cursor

/-- A cursor evaluates no condition but that of its loop. -/
theorem Drives.eq_whileHolds {spec : Iteration} {cursor : Cursor} (h : spec.Drives cursor)
    {condition : Condition} {limit : Option Number}
    (hcourse : cursor.course = .whileHolds condition limit) :
    spec = .whileHolds condition limit := by
  induction h with
  | first hbegin => exact eq_whileHolds_of_beginLoop hbegin hcourse
  | next _ hnext ih => exact ih (Cursor.course_of_next hnext hcourse)

end Iteration

namespace Cursor

/-- A cursor of a loop reads only the templates that are collected from the loop. -/
theorem next_confined {spec : Iteration} {cursor : Cursor} (hdrives : spec.Drives cursor)
    (scope : Scope) : Confined (spec.operands.flatMap Value.templates) (cursor.next scope) := by
  unfold next
  split
  · next condition limit hcourse =>
    obtain rfl := hdrives.eq_whileHolds hcourse
    split
    · exact .ok _
    · have hcondition := condition.evaluate_confined scope
      split
      · next fault hfault =>
        rw [hfault] at hcondition
        exact hcondition.rethrow
      · exact .ok _
      · exact .ok _
  · split
    · exact .ok _
    · exact .ok _
  · split
    · exact .ok _
    · exact .ok _

end Cursor

/-! ### Actions -/

namespace Action

section

variable {operands : List Value} {kind : Fault → Prop} {scope : Scope}
  (htemplates : ∀ source ∈ operands.flatMap Value.templates,
    ThrowsOnly kind (Template.resolve scope source))

include htemplates

theorem resolve_of_mem {value : Value} (h : value ∈ operands) :
    ThrowsOnly kind (value.resolve scope) :=
  Value.resolve_throwsOnly fun source hsource ↦
    htemplates source (Value.templates_subset h hsource)

theorem interpolate_of_mem {source : Text} (h : .text source ∈ operands) :
    ThrowsOnly kind (Template.interpolate scope source) :=
  .bind (resolve_of_mem htemplates h) fun _ ↦ .ok _

theorem resolvedFields_throwsOnly (fields : List (Text × Text)) (done : Entries Text)
    (h : ∀ field ∈ fields, .text field.2 ∈ operands) :
    ThrowsOnly kind (resolvedFields scope done fields) := by
  induction fields generalizing done with
  | nil => exact .ok done
  | cons field rest ih =>
    rw [resolvedFields]
    refine .bind (interpolate_of_mem htemplates (h field List.mem_cons_self)) fun resolved ↦ ?_
    exact ih _ fun other hother ↦ h other (List.mem_cons_of_mem field hother)

theorem interpolateAll_throwsOnly (texts : List Text) (h : ∀ t ∈ texts, .text t ∈ operands) :
    ThrowsOnly kind (interpolateAll scope texts) := by
  induction texts with
  | nil => exact .ok []
  | cons t rest ih =>
    rw [interpolateAll]
    refine .bind (interpolate_of_mem htemplates (h t List.mem_cons_self)) fun first ↦ ?_
    exact .bind (ih fun other hother ↦ h other (List.mem_cons_of_mem t hother)) fun _ ↦ .ok _

/-- An action that makes one request of one text. -/
theorem single_throwsOnly {source : Text} (make : Text → Task) (h : .text source ∈ operands) :
    ThrowsOnly kind (do .ok (make (← Template.interpolate scope source))) :=
  .bind (interpolate_of_mem htemplates h) fun _ ↦ .ok _

end

/-- The preparation of an action throws what its templates throw when they are resolved. Only the
length of a wait and the name of a variable may be refused besides. -/
theorem task_throwsOnly {kind : Fault → Prop} {scope : Scope} {timeout : Number}
    {recorded : Value} {action : Action}
    (htemplates : ∀ source ∈ action.operands.flatMap Value.templates,
      ThrowsOnly kind (Template.resolve scope source))
    (hwait : ∀ seconds, action = .wait seconds →
      ThrowsOnly kind (action.task scope timeout recorded))
    (hname : ∀ target value append name, action = .setVariable target value append →
      Template.interpolate scope target = .ok name → name.isName = false →
      kind (.mismatch (.variableName name))) :
    ThrowsOnly kind (action.task scope timeout recorded) := by
  cases action with
  | navigate url =>
    exact single_throwsOnly htemplates (fun t ↦ .request (.navigate t)) (by simp [operands])
  | click selector =>
    exact single_throwsOnly htemplates (fun t ↦ .request (.click t)) (by simp [operands])
  | hover selector =>
    exact single_throwsOnly htemplates (fun t ↦ .request (.hover t)) (by simp [operands])
  | getText selector =>
    exact single_throwsOnly htemplates (fun t ↦ .request (.getText t)) (by simp [operands])
  | waitFor selector =>
    exact single_throwsOnly htemplates (fun t ↦ .request (.waitFor t timeout)) (by simp [operands])
  | evaluate script =>
    exact single_throwsOnly htemplates (fun t ↦ .request (.evaluate t)) (by simp [operands])
  | executeScript script =>
    exact single_throwsOnly htemplates (fun t ↦ .request (.executeScript t)) (by simp [operands])
  | load path =>
    exact single_throwsOnly htemplates (fun t ↦ .request (.load t)) (by simp [operands])
  | type selector input =>
    cases input with
    | template source =>
      exact .bind (interpolate_of_mem htemplates (by simp [operands])) fun _ ↦
        .bind (interpolate_of_mem htemplates (by simp [operands])) fun _ ↦ .ok _
    | number x => exact .bind (interpolate_of_mem htemplates (by simp [operands])) fun _ ↦ .ok _
    | bool b => exact .bind (interpolate_of_mem htemplates (by simp [operands])) fun _ ↦ .ok _
  | wait seconds => exact hwait seconds rfl
  | extract selector fields =>
    refine .bind (interpolate_of_mem htemplates (by simp [operands])) fun element ↦ ?_
    cases fields with
    | none => exact .ok _
    | some specs =>
      refine .bind (resolvedFields_throwsOnly htemplates specs [] fun field hfield ↦ ?_)
        fun _ ↦ .ok _
      exact List.mem_cons_of_mem _ (List.mem_map.mpr ⟨field, hfield, rfl⟩)
  | getAttribute selector attributeName =>
    exact .bind (interpolate_of_mem htemplates (by simp [operands])) fun _ ↦
      .bind (interpolate_of_mem htemplates (by simp [operands])) fun _ ↦ .ok _
  | screenshot path =>
    cases path with
    | none =>
      have hplain : Value.templates (.text standardScreenshot) = [] := by decide
      refine .bind (.bind (Template.resolve_throwsOnly fun source hsource ↦ ?_) fun _ ↦ .ok _)
        fun _ ↦ .ok _
      rw [Option.getD_none, hplain] at hsource
      cases hsource
    | some source => exact .bind (interpolate_of_mem htemplates (by simp [operands])) fun _ ↦ .ok _
  | save path data =>
    refine .bind (interpolate_of_mem htemplates (by simp [operands])) fun target ↦ ?_
    cases data with
    | none => exact .ok _
    | some value => exact .bind (resolve_of_mem htemplates (by simp [operands])) fun _ ↦ .ok _
  | setVariable target value append =>
    refine .bind_of_ok (interpolate_of_mem htemplates (by simp [operands])) fun name hfound ↦ ?_
    split
    · exact .bind (resolve_of_mem htemplates (by simp [operands])) fun _ ↦ .ok _
    · next hother =>
      exact .error (hname target value append name rfl hfound (by simpa using hother))
  | setInputFiles selector files =>
    refine .bind (interpolate_of_mem htemplates (by simp [operands])) fun element ↦ ?_
    refine .bind (interpolateAll_throwsOnly htemplates files.paths fun path hpath ↦ ?_)
      fun _ ↦ .ok _
    exact List.mem_cons_of_mem _ (List.mem_map.mpr ⟨path, hpath, rfl⟩)
  | stop reason =>
    cases reason with
    | none => exact .ok _
    | some source => exact .bind (interpolate_of_mem htemplates (by simp [operands])) fun _ ↦ .ok _

/-- An action is prepared by reading only the templates that are collected from it. -/
theorem task_confined (scope : Scope) (timeout : Number) (recorded : Value) (action : Action) :
    Confined (action.operands.flatMap Value.templates) (action.task scope timeout recorded) := by
  refine task_throwsOnly (fun _ ↦ Template.resolve_of_mem) ?_
    (fun _ _ _ _ _ _ _ ↦ .of_kind (by simp [Fault.kind]))
  rintro seconds rfl
  have hnegative : ∀ length : Number,
      Confined ((wait seconds).operands.flatMap Value.templates)
        (if Number.lt length 0 then .error (.mismatch (.negativeWait length))
          else .ok (.request (.wait length)) : Except Fault Task) := by
    intro length
    split
    · exact .error (.of_kind (by simp [Fault.kind]))
    · exact .ok _
  refine .bind ?_ hnegative
  cases seconds with
  | none => exact .ok _
  | some amount =>
    exact (amount.resolve_confined scope _).widen (Value.templates_subset (by simp [operands]))

end Action

end BrowserFlow
