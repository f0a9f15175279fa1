import BrowserFlow.Proofs.Document.Clean
import BrowserFlow.Proofs.Fault.Thrown
import BrowserFlow.Workflow.Checking

/-!
What each part of a document is read from. A condition, and a step, is read from
the parts under its keys (`condition_eq`, `step_act`, `step_branch`,
`step_loop`): the definitions carry along that these are smaller, which is left
out here. What is read without issues is read from parts that are, and has no
other keys than its form takes (`condition_cases`, `LoopParts`, `StepParts`,
`workflow_parts`). A document is accepted when it is a workflow without issues
of form and without issues of its steps (`Workflow.validate_eq_ok`).
-/

set_option autoImplicit false
set_option relaxedAutoImplicit false

namespace BrowserFlow

namespace Document

open Checked

/-! ### Scalars -/

theorem text_text (trimmed nonempty : Bool) (source : Text) :
    text trimmed nonempty (.text source) = require (fun t ↦ !nonempty || !t.isEmpty) .emptyText
      (ok (if trimmed then source.trim else source)) := rfl

theorem text_eq_ok {trimmed nonempty : Bool} {d : Datum} {t : Text} :
    text trimmed nonempty d = ok t ↔ ∃ source, d = .text source ∧
      (if trimmed then source.trim else source) = t ∧ (!nonempty || !t.isEmpty) = true := by
  constructor
  · intro h
    cases d with
    | text source =>
      rw [text_text, require_eq_ok, ok_inj] at h
      obtain ⟨heq, hnonempty⟩ := h
      exact ⟨source, rfl, heq, hnonempty⟩
    | _ => exact absurd h (refused_ne_ok _ t)
  · rintro ⟨source, rfl, rfl, hnonempty⟩
    rw [text_text, require_eq_ok]
    exact ⟨rfl, hnonempty⟩

theorem number_eq_ok {d : Datum} {x : Number} :
    number d = ok x ↔ d = .number x ∧ x ≠ .nan := by
  constructor
  · intro h
    cases d with
    | number y =>
      by_cases hy : y = .nan
      · rw [number, if_pos hy] at h
        exact absurd h (refused_ne_ok _ x)
      · rw [number, if_neg hy] at h
        obtain rfl := ok_inj.mp h
        exact ⟨rfl, hy⟩
    | _ => exact absurd h (refused_ne_ok _ x)
  · rintro ⟨rfl, hx⟩
    exact if_neg hx

theorem value_eq_ok {d : Datum} {v : Value} : value d = ok v ↔ value? d = some v := by
  unfold value
  cases value? d with
  | some found => simpa using ok_inj
  | none => simpa using refused_ne_ok _ v

/-! ### Conditions -/

theorem requireRight_eq_ok {read : Checked Comparison} {c : Comparison} :
    requireRight read = ok c ↔ read = ok c ∧ hasOperands c = true := by
  have htested := @tested_eq_ok _ hasOperands
    (fun found ↦ ⟨[.key "right"], .missingRight found.relation⟩) read c
  obtain ⟨value, issues⟩ := read
  cases value <;> exact htested

theorem condition_absent : condition .absent = refused .noAlternative := by
  rw [condition]
  rfl

/-- The parts that a condition is read from. -/
theorem condition_eq (d : Datum) : condition d =
    firstOf [Condition.compare <$> comparison d,
      Condition.all <$> conditionList d "all" (sequence condition (d.member "all")),
      Condition.any <$> conditionList d "any" (sequence condition (d.member "any")),
      Condition.not <$> form ["not"] d (field d "not" condition)] := by
  rw [condition]
  congr 5
  · split
    · next ds h => exact items_attach h
    · next h => exact refused_of_ne h
  · congr 3
    split
    · next ds h => exact items_attach h
    · next h => exact refused_of_ne h
  · congr 4
    split
    · next h =>
      have habsent : d.member "not" = .absent := by
        cases hmember : d.member "not" with
        | absent => rfl
        | _ => simp [hmember, Datum.isAbsent] at h
      rw [habsent, condition_absent]
    · rfl

variable {d : Datum}

/-- The part that a condition was read from. -/
theorem condition_cases {c : Condition} (h : condition d = ok c) :
    (∃ compared, comparison d = ok compared ∧ c = .compare compared) ∨
    (∃ cs, conditionList d "all" (sequence condition (d.member "all")) = ok cs ∧ c = .all cs) ∨
    (∃ cs, conditionList d "any" (sequence condition (d.member "any")) = ok cs ∧ c = .any cs) ∨
    (∃ inner, form ["not"] d (field d "not" condition) = ok inner ∧ c = .not inner) := by
  rw [condition_eq] at h
  rcases firstOf_cons_eq_ok.mp h with hfound | ⟨-, h⟩
  · obtain ⟨compared, hcompared, rfl⟩ := map_eq_ok.mp hfound
    exact .inl ⟨compared, hcompared, rfl⟩
  rcases firstOf_cons_eq_ok.mp h with hfound | ⟨-, h⟩
  · obtain ⟨cs, hcs, rfl⟩ := map_eq_ok.mp hfound
    exact .inr (.inl ⟨cs, hcs, rfl⟩)
  rcases firstOf_cons_eq_ok.mp h with hfound | ⟨-, h⟩
  · obtain ⟨cs, hcs, rfl⟩ := map_eq_ok.mp hfound
    exact .inr (.inr (.inl ⟨cs, hcs, rfl⟩))
  rcases firstOf_cons_eq_ok.mp h with hfound | ⟨-, h⟩
  · obtain ⟨inner, hinner, rfl⟩ := map_eq_ok.mp hfound
    exact .inr (.inr (.inr ⟨inner, hinner, rfl⟩))
  · exact absurd h (firstOf_nil_ne_ok c)

theorem comparison_isClean (h : d.member "operator" = .absent) :
    (comparison d).isClean = false := by
  rw [isClean_eq_false_iff]
  intro c hc
  simp only [comparison, requireRight_eq_ok, form_eq_ok, seq_eq_ok, map_eq_ok, field_eq_ok] at hc
  obtain ⟨⟨-, -, _, right, ⟨_, left, ⟨r, hr, rfl⟩, -, rfl⟩, -, rfl⟩, -⟩ := hc
  rw [h] at hr
  exact refused_ne_ok _ r hr

theorem conditionList_eq_ok {key : Text} {cs : List Condition} :
    conditionList d key (sequence condition (d.member key)) = ok cs ↔
      d.isObject = true ∧ (∀ name ∈ d.listed.map Prod.fst, name ∈ [key]) ∧
        sequence condition (d.member key) = ok cs ∧ cs ≠ [] := by
  rw [conditionList, form_eq_ok, within_eq_ok, nonempty_eq_ok]

theorem conditionList_isClean {key : Text} (h : d.member key = .absent) :
    (conditionList d key (sequence condition (d.member key))).isClean = false := by
  rw [isClean_eq_false_iff]
  intro cs hcs
  obtain ⟨-, -, hread, -⟩ := conditionList_eq_ok.mp hcs
  rw [h] at hread
  exact refused_ne_ok _ cs hread

/-! ### Forms by their names -/

theorem formOf?_eq_some {α : Type} {forms : List (Text × α)} {x : Datum} {a : α}
    (h : formOf? forms x = some a) : ∃ name, x = .text name ∧ (name, a) ∈ forms := by
  cases x with
  | text name => exact ⟨name, rfl, Entries.mem_of_find? h⟩
  | _ => simp [formOf?] at h

/-! ### Loops -/

/-- What a loop is read from without issues: the parts under the keys of the form it names. -/
inductive LoopParts (d : Datum) : Iteration → Prop
  /-- As long as a condition holds. -/
  | whileHolds {c : Condition} {limit : Option Number} (htype : d.member "type" = .text "while")
      (hknown : ∀ key ∈ d.listed.map Prod.fst,
        key ∈ (["type", "condition", "max_iterations"] : List Text))
      (hcondition : condition (d.member "condition") = ok c)
      (hlimit : Checked.optional positiveInteger (d.member "max_iterations") = ok limit) :
      LoopParts d (.whileHolds c limit)
  /-- For numbers from one to another. -/
  | range {counter : Text} {start stop : Amount} {pace : Option Amount}
      (htype : d.member "type" = .text "for")
      (hknown : ∀ key ∈ d.listed.map Prod.fst,
        key ∈ (["type", "variable", "start", "end", "step"] : List Text))
      (hcounter : someText (d.member "variable") = ok counter)
      (hstart : amount (d.member "start") = ok start) (hstop : amount (d.member "end") = ok stop)
      (hpace : Checked.optional amount (d.member "step") = ok pace) :
      LoopParts d (.range counter start stop pace)
  /-- For each item of a value. -/
  | forEach {counter : Text} {source : Value} (htype : d.member "type" = .text "for_each")
      (hknown : ∀ key ∈ d.listed.map Prod.fst,
        key ∈ (["type", "variable", "items"] : List Text))
      (hcounter : someText (d.member "variable") = ok counter)
      (hsource : loopItems (d.member "items") = ok source) : LoopParts d (.forEach counter source)
  /-- So many times. -/
  | times {count : Amount} {counter : Option Text} (htype : d.member "type" = .text "repeat")
      (hknown : ∀ key ∈ d.listed.map Prod.fst,
        key ∈ (["type", "times", "variable"] : List Text))
      (hcount : amount (d.member "times") = ok count)
      (hcounter : Checked.optional someText (d.member "variable") = ok counter) :
      LoopParts d (.times count counter)

theorem iteration_parts {spec : Iteration} (h : iteration d = ok spec) : LoopParts d spec := by
  unfold iteration at h
  split at h
  · split at h
    · next read hform =>
      obtain ⟨name, htype, hmem⟩ := formOf?_eq_some hform
      simp only [loopForms, List.mem_cons, Prod.mk.injEq, List.not_mem_nil, or_false] at hmem
      rcases hmem with ⟨rfl, rfl⟩ | ⟨rfl, rfl⟩ | ⟨rfl, rfl⟩ | ⟨rfl, rfl⟩ <;>
        simp only [form_eq_ok, seq_eq_ok, map_eq_ok, field_eq_ok] at h
      · obtain ⟨-, hknown, _, _, ⟨_, hcondition, rfl⟩, hlimit, rfl⟩ := h
        exact .whileHolds htype hknown hcondition hlimit
      · obtain ⟨-, hknown, _, _, ⟨_, _, ⟨_, _, ⟨_, hcounter, rfl⟩, hstart, rfl⟩, hstop, rfl⟩, hpace,
          rfl⟩ := h
        exact .range htype hknown hcounter hstart hstop hpace
      · obtain ⟨-, hknown, _, _, ⟨_, hcounter, rfl⟩, hsource, rfl⟩ := h
        exact .forEach htype hknown hcounter hsource
      · obtain ⟨-, hknown, _, _, ⟨_, hcount, rfl⟩, hcounter, rfl⟩ := h
        exact .times htype hknown hcount hcounter
    · exact absurd (within_eq_ok.mp h) (refused_ne_ok _ spec)
  · exact absurd h (refused_ne_ok _ spec)

/-! ### Steps -/

theorem stepList_attach {d : Datum} {ds : List Datum} (h : d = .sequence ds) :
    stepList d (ds.attach.map fun x ↦ step x.1) = sequence step d := by
  rw [← items_attach h, h]
  rfl

theorem stepList_of_ne {d : Datum} (h : ∀ ds, d ≠ .sequence ds) (parts : List (Checked Step)) :
    stepList d parts = sequence step d := by
  cases d with
  | sequence ds => exact absurd rfl (h ds)
  | _ => rfl

theorem step_act (hobject : d.isObject = true) {kind : ActionKind}
    (hkind : formOf? kinds (d.member "action") = some kind) {action : ActionForm}
    (haction : actionForm? kind = some action) :
    step d = form (headerKeys ++ action.keys) d (Step.act <$> header d <*> action.read d) := by
  rw [step, if_pos hobject]
  simp only [hkind, haction]

/-- The parts that a branch is read from. -/
theorem step_branch (hobject : d.isObject = true)
    (hkind : formOf? kinds (d.member "action") = some .branch) :
    step d = form (headerKeys ++ branchKeys) d
      (Step.branch <$> header d <*> field d "value" condition
        <*> field d "steps" (fun x ↦ nonempty (sequence step x))
        <*> field d "else_steps" (optional (sequence step))) := by
  rw [step, if_pos hobject]
  simp only [hkind, actionForm?, if_true]
  congr 2
  · congr 1
    refine funext fun _ ↦ field_congr ?_
    refine congrArg nonempty ?_
    split
    · next ds h => exact stepList_attach h
    · next h => exact stepList_of_ne h _
  · refine funext fun _ ↦ field_congr ?_
    unfold Checked.optional
    congr 2
    split
    · next ds h => exact stepList_attach h
    · next h => exact stepList_of_ne h _

/-- The parts that a loop is read from. -/
theorem step_loop (hobject : d.isObject = true)
    (hkind : formOf? kinds (d.member "action") = some .loop) :
    step d = form (headerKeys ++ loopKeys) d
      (Step.loop <$> header d <*> field d "value" iteration
        <*> field d "steps" (fun x ↦ nonempty (sequence step x))) := by
  rw [step, if_pos hobject]
  simp only [hkind, actionForm?, reduceCtorEq, if_false]
  congr 2
  refine funext fun _ ↦ field_congr ?_
  refine congrArg nonempty ?_
  split
  · next ds h => exact stepList_attach h
  · next h => exact stepList_of_ne h _

/-- What reads without issues as a step is an object with the name of a kind. -/
theorem kind_of_step {s : Step} (h : step d = ok s) :
    d.isObject = true ∧ ∃ kind, formOf? kinds (d.member "action") = some kind := by
  rw [step] at h
  split at h
  · next hobject =>
    refine ⟨hobject, ?_⟩
    cases hkind : formOf? kinds (d.member "action") with
    | some kind => exact ⟨kind, rfl⟩
    | none =>
      simp only [hkind] at h
      exact absurd (within_eq_ok.mp h) (refused_ne_ok _ s)
  · exact absurd h (refused_ne_ok _ s)

theorem header_parts {head : StepHeader} (h : header d = ok head) :
    Checked.optional condition (d.member "condition") = ok head.guard ∧
      Checked.optional retryPlan (d.member "retry") = ok head.retry := by
  simp only [header, seq_eq_ok, map_eq_ok, field_eq_ok] at h
  obtain ⟨_, guard, ⟨_, limit, ⟨_, plan, ⟨_, policy, ⟨_, description, ⟨name, -, rfl⟩, -, rfl⟩, -,
    rfl⟩, hplan, rfl⟩, -, rfl⟩, hguard, rfl⟩ := h
  exact ⟨hguard, hplan⟩

/-- What a step is read from without issues: what every step has, and the members that its action
takes. -/
inductive StepParts (d : Datum) : Step → Prop
  /-- An action. -/
  | act {kind : ActionKind} {action : ActionForm} {head : StepHeader} {what : Action}
      (hkind : formOf? kinds (d.member "action") = some kind)
      (hform : actionForm? kind = some action)
      (hknown : ∀ key ∈ d.listed.map Prod.fst, key ∈ headerKeys ++ action.keys)
      (hhead : header d = ok head) (haction : action.read d = ok what) :
      StepParts d (.act head what)
  /-- A branch. -/
  | branch {head : StepHeader} {c : Condition} {steps : List Step} {otherwise : Option (List Step)}
      (hkind : formOf? kinds (d.member "action") = some .branch)
      (hknown : ∀ key ∈ d.listed.map Prod.fst, key ∈ headerKeys ++ branchKeys)
      (hhead : header d = ok head) (hcondition : condition (d.member "value") = ok c)
      (hsteps : sequence step (d.member "steps") = ok steps) (hne : steps ≠ [])
      (hotherwise : Checked.optional (sequence step) (d.member "else_steps") = ok otherwise) :
      StepParts d (.branch head c steps otherwise)
  /-- A loop. -/
  | loop {head : StepHeader} {spec : Iteration} {steps : List Step}
      (hkind : formOf? kinds (d.member "action") = some .loop)
      (hknown : ∀ key ∈ d.listed.map Prod.fst, key ∈ headerKeys ++ loopKeys)
      (hhead : header d = ok head) (hspec : iteration (d.member "value") = ok spec)
      (hsteps : sequence step (d.member "steps") = ok steps) (hne : steps ≠ []) :
      StepParts d (.loop head spec steps)

theorem StepParts.header {s : Step} (h : StepParts d s) : Document.header d = ok s.header := by
  cases h with
  | act _ _ _ hhead => exact hhead
  | branch _ _ hhead => exact hhead
  | loop _ _ hhead => exact hhead

theorem step_parts {s : Step} (h : step d = ok s) : StepParts d s := by
  obtain ⟨hobject, kind, hkind⟩ := kind_of_step h
  cases hform : actionForm? kind with
  | some form =>
    rw [step_act hobject hkind hform, form_eq_ok, seq_eq_ok] at h
    obtain ⟨-, hknown, _, action, hact, haction, rfl⟩ := h
    obtain ⟨head, hhead, rfl⟩ := map_eq_ok.mp hact
    exact .act hkind hform hknown hhead haction
  | none =>
    cases kind with
    | branch =>
      rw [step_branch hobject hkind] at h
      simp only [form_eq_ok, seq_eq_ok, map_eq_ok, field_eq_ok] at h
      obtain ⟨-, hknown, _, otherwise, ⟨_, steps, ⟨_, c, ⟨head, hhead, rfl⟩, hcondition, rfl⟩,
        hsteps, rfl⟩, hotherwise, rfl⟩ := h
      obtain ⟨hsteps, hne⟩ := nonempty_eq_ok.mp hsteps
      exact .branch hkind hknown hhead hcondition hsteps hne hotherwise
    | loop =>
      rw [step_loop hobject hkind] at h
      simp only [form_eq_ok, seq_eq_ok, map_eq_ok, field_eq_ok] at h
      obtain ⟨-, hknown, _, steps, ⟨_, spec, ⟨head, hhead, rfl⟩, hspec, rfl⟩, hsteps, rfl⟩ := h
      obtain ⟨hsteps, hne⟩ := nonempty_eq_ok.mp hsteps
      exact .loop hkind hknown hhead hspec hsteps hne
    | _ => simp [actionForm?] at hform

/-! ### Workflows -/

theorem workflow_parts {w : Workflow} (h : workflow d = ok w) :
    (∀ key ∈ d.listed.map Prod.fst,
        key ∈ (["name", "version", "description", "variables", "steps"] : List Text)) ∧
      sequence step (d.member "steps") = ok w.steps := by
  simp only [workflow, form_eq_ok, seq_eq_ok, map_eq_ok, field_eq_ok] at h
  obtain ⟨-, hknown, _, steps, ⟨_, _, ⟨_, _, ⟨_, _, ⟨_, -, rfl⟩, -, rfl⟩, -, rfl⟩, -, rfl⟩, hsteps,
    rfl⟩ := h
  exact ⟨hknown, (nonempty_eq_ok.mp hsteps).1⟩

end Document

/-! ### Documents -/

theorem Workflow.validate_eq_ok {document : Datum} {validated : Validated} :
    validate document = .ok validated ↔ Document.workflow document = .ok validated.workflow ∧
      issueLines validated.workflow.located = [] ∧
      validated.warnings =
        warningLines validated.workflow.declared [] validated.workflow.located := by
  unfold validate
  obtain ⟨value, issues⟩ := Document.workflow document
  cases value with
  | none => simp [Checked.ok]
  | some w =>
    cases issues with
    | cons issue rest => simp [Checked.ok]
    | nil =>
      have hread : (⟨some w, []⟩ : Checked Workflow) = .ok validated.workflow ↔
          w = validated.workflow := Checked.ok_inj
      rw [hread]
      dsimp only
      split
      · next hissues =>
        constructor
        · intro h
          obtain rfl := Except.ok.inj h
          exact ⟨rfl, hissues, rfl⟩
        · rintro ⟨rfl, -, hwarnings⟩
          rw [← hwarnings]
      · next hissues =>
        constructor
        · intro h
          cases h
        · rintro ⟨rfl, hnone, -⟩
          exact absurd hnone hissues

theorem Workflow.validate_of_toOption {document : Datum} {validated : Validated}
    (h : (validate document).toOption = some validated) : validate document = .ok validated :=
  Except.eq_ok_of_toOption h

/-- A step of an accepted document that passes a test. -/
theorem Workflow.exists_accepted {document : Datum} {place : Place} {test : Step → Bool}
    (h : (validate document).toOption.any (fun validated ↦
      (Step.stepAt? validated.workflow.steps place).any test) = true) :
    ∃ validated step, validate document = .ok validated ∧
      Step.stepAt? validated.workflow.steps place = some step ∧ test step = true := by
  obtain ⟨validated, hvalid, hany⟩ := (Option.any_eq_true _ _).mp h
  obtain ⟨step, hstep, htest⟩ := (Option.any_eq_true _ _).mp hany
  exact ⟨validated, step, validate_of_toOption hvalid, hstep, htest⟩

end BrowserFlow
