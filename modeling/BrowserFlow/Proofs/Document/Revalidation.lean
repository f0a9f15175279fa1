import BrowserFlow.Proofs.Document.Rereading
import BrowserFlow.Run.Basic

/-!
Accepting what was accepted. A step that was read is read again from its written
form, by induction on the size of the datum: the steps within it are smaller
(`Document.step_again`). So is a workflow (`Document.workflow_again`), and what
else is asked of a document, its warnings included, depends on the workflow
alone. Checking a document that was checked before changes nothing
(`Workflow.validate_idempotent`), and a run of the written form of a workflow is
a run of the document that it was read from (`Workflow.run_toValue`).
-/

set_option autoImplicit false
set_option relaxedAutoImplicit false

namespace BrowserFlow.Document

open Checked

variable {d : Datum}

/-! ### Steps -/

theorem keysInOrder_action {kind : ActionKind} {form : ActionForm}
    (h : actionForm? kind = some form) : Entries.KeysInOrder (headerKeys ++ form.keys) := by
  cases kind <;>
    first
      | (obtain rfl := Option.some.inj h; decide)
      | simp [actionForm?] at h

theorem formOf?_kinds (kind : ActionKind) :
    formOf? kinds (Datum.ofSlot (some (.text kind.name))) = some kind := by
  have hnames : ∀ kind ∈ ActionKind.all, Entries.find? kinds kind.name = some kind := by
    decide +kernel
  exact hnames kind (by cases kind <;> decide)

/-- What every step has is read again from any object that was written with its members. -/
theorem header_again {head : StepHeader} (h : header d = ok head) {kind : ActionKind}
    {own : List (Text × Option Value)} {keys : List Text}
    (hkeys : (head.members kind ++ own).map Prod.fst = keys) (horder : Entries.KeysInOrder keys) :
    header (Datum.ofValue (.ofFields (head.members kind ++ own))) = ok head := by
  simp only [header, seq_eq_ok, map_eq_ok, field_eq_ok] at h
  obtain ⟨_, guard, ⟨_, limit, ⟨_, plan, ⟨_, policy, ⟨_, description, ⟨name, hname, rfl⟩,
    hdescription, rfl⟩, hpolicy, rfl⟩, hplan, rfl⟩, hlimit, rfl⟩, hguard, rfl⟩ := h
  refine seq_ok (seq_ok (seq_ok (seq_ok (seq_ok (map_ok _ ?_) ?_) ?_) ?_) ?_) ?_
  · exact field_written hkeys horder (.head _) (text_again hname)
  · exact field_written hkeys horder (.tail _ (.head _))
      (optional_again (fun _ ↦ text_again) hdescription)
  · exact field_written hkeys horder (.tail _ (.tail _ (.head _)))
      (optional_again (fun p _ ↦ policy_again p) hpolicy)
  · exact field_written hkeys horder (.tail _ (.tail _ (.tail _ (.head _))))
      (optional_again (fun _ ↦ retryPlan_again) hplan)
  · exact field_written hkeys horder (.tail _ (.tail _ (.tail _ (.tail _ (.head _)))))
      (optional_again (fun _ ↦ timeout_again) hlimit)
  · exact field_written hkeys horder (.tail _ (.tail _ (.tail _ (.tail _ (.tail _ (.head _))))))
      (optional_again (fun _ ↦ condition_again _) hguard)

theorem kind_written {head : StepHeader} {kind : ActionKind} {own : List (Text × Option Value)}
    {keys : List Text} (hkeys : (head.members kind ++ own).map Prod.fst = keys)
    (horder : Entries.KeysInOrder keys) :
    formOf? kinds ((Datum.ofValue (.ofFields (head.members kind ++ own))).member "action") =
      some kind := by
  have hmem : (("action" : Text), some (Value.text kind.name)) ∈ head.members kind ++ own :=
    .tail _ (.tail _ (.tail _ (.tail _ (.tail _ (.tail _ (.head _))))))
  rw [Datum.member_ofFields hkeys horder hmem]
  exact formOf?_kinds kind

theorem act_again {head : StepHeader} (hhead : header d = ok head) {kind : ActionKind}
    {form : ActionForm} (hform : actionForm? kind = some form) {action : Action}
    (haction : form.read d = ok action) :
    step (Datum.ofValue (Step.act head action).toValue) = ok (.act head action) := by
  obtain ⟨rfl, hmembers, hread⟩ := actionForm?_readsAgain hform d action haction
  have horder := keysInOrder_action hform
  have hkeys : (head.members action.kind ++ action.members).map Prod.fst =
      headerKeys ++ form.keys := by
    rw [List.map_append, hmembers]
    rfl
  rw [Step.toValue, step_act rfl (kind_written hkeys horder) hform]
  refine form_written hkeys horder
    (seq_ok (map_ok _ (header_again hhead hkeys horder)) (hread _ fun entry hentry ↦ ?_))
  exact Datum.member_ofFields hkeys horder (List.mem_append_right _ hentry)

theorem toValues_eq_map_steps (steps : List Step) :
    Step.toValues steps = steps.map Step.toValue := by
  induction steps with
  | nil => rfl
  | cons s rest ih => rw [Step.toValues, ih, List.map_cons]

theorem otherwiseToValue_eq_map (otherwise : Option (List Step)) :
    Step.otherwiseToValue otherwise =
      otherwise.map fun steps ↦ .sequence (steps.map Step.toValue) := by
  cases otherwise with
  | none => rfl
  | some steps => rw [Step.otherwiseToValue, toValues_eq_map_steps, Option.map_some]

theorem branch_again {head : StepHeader} (hhead : header d = ok head) {condition : Condition}
    (hcondition : Document.condition (d.member "value") = ok condition) {steps : List Step}
    {otherwise : Option (List Step)}
    (hsteps : sequence step (Datum.ofValue (.sequence (steps.map Step.toValue))) = ok steps)
    (hne : steps ≠ [])
    (hotherwise : optional (sequence step) (Datum.ofSlot
      (otherwise.map fun steps ↦ .sequence (steps.map Step.toValue))) = ok otherwise) :
    step (Datum.ofValue (Step.branch head condition steps otherwise).toValue) =
      ok (.branch head condition steps otherwise) := by
  rw [← toValues_eq_map_steps] at hsteps
  rw [← otherwiseToValue_eq_map] at hotherwise
  have horder : Entries.KeysInOrder (headerKeys ++ branchKeys) := by decide
  rw [Step.toValue, step_branch rfl (kind_written (by rfl) horder)]
  refine form_written (by rfl) horder (seq_ok (seq_ok (seq_ok (map_ok _ ?_) ?_) ?_) ?_)
  · exact header_again hhead (by rfl) horder
  · exact field_written (by rfl) horder (List.mem_append_right _ (.head _))
      (condition_again _ hcondition)
  · exact field_written (by rfl) horder (List.mem_append_right _ (.tail _ (.head _)))
      (nonempty_eq_ok.mpr ⟨hsteps, hne⟩)
  · exact field_written (by rfl) horder (List.mem_append_right _ (.tail _ (.tail _ (.head _))))
      hotherwise

theorem loop_again {head : StepHeader} (hhead : header d = ok head) {spec : Iteration}
    (hspec : iteration (d.member "value") = ok spec) {steps : List Step}
    (hsteps : sequence step (Datum.ofValue (.sequence (steps.map Step.toValue))) = ok steps)
    (hne : steps ≠ []) :
    step (Datum.ofValue (Step.loop head spec steps).toValue) = ok (.loop head spec steps) := by
  rw [← toValues_eq_map_steps] at hsteps
  have horder : Entries.KeysInOrder (headerKeys ++ loopKeys) := by decide
  rw [Step.toValue, step_loop rfl (kind_written (by rfl) horder)]
  refine form_written (by rfl) horder (seq_ok (seq_ok (map_ok _ ?_) ?_) ?_)
  · exact header_again hhead (by rfl) horder
  · exact field_written (by rfl) horder (List.mem_append_right _ (.head _))
      (iteration_again hspec)
  · exact field_written (by rfl) horder (List.mem_append_right _ (.tail _ (.head _)))
      (nonempty_eq_ok.mpr ⟨hsteps, hne⟩)

/-- A step that was read is read from its own datum again. -/
theorem step_again (d : Datum) {s : Step} (h : step d = ok s) :
    step (Datum.ofValue s.toValue) = ok s := by
  have hitem : ∀ key ds, d.member key = .sequence ds → ∀ x ∈ ds, ∀ s, step x = ok s →
      step (Datum.ofValue s.toValue) = ok s := fun key ds hds x hx s hs ↦
    have : sizeOf x < sizeOf d := Datum.sizeOf_item_lt hds hx
    step_again x hs
  cases step_parts h with
  | act _ hform _ hhead haction => exact act_again hhead hform haction
  | branch _ _ hhead hcondition hsteps hne hotherwise =>
    exact branch_again hhead hcondition (sequence_again (hitem "steps") hsteps) hne
      (optional_again (fun _ ↦ sequence_again (hitem "else_steps")) hotherwise)
  | loop _ _ hhead hspec hsteps hne =>
    exact loop_again hhead hspec (sequence_again (hitem "steps") hsteps) hne
termination_by sizeOf d

/-! ### Workflows -/

theorem bindings_again {entries : Entries Value} (h : record value d = ok entries) :
    record value (Datum.ofValue (.mapping entries)) = ok entries := by
  have hagain := record_again (fun _ _ ↦ value_again) h
  simpa using hagain

/-- A workflow that was read is read from its own datum again. -/
theorem workflow_again {w : Workflow} (h : workflow d = ok w) :
    workflow (Datum.ofValue w.toValue) = ok w := by
  simp only [workflow, form_eq_ok, seq_eq_ok, map_eq_ok, field_eq_ok] at h
  obtain ⟨-, -, _, steps, ⟨_, bindings, ⟨_, description, ⟨_, number, ⟨name, hname, rfl⟩, hnumber,
    rfl⟩, hdescription, rfl⟩, hbindings, rfl⟩, hsteps, rfl⟩ := h
  obtain ⟨hsteps, hne⟩ := nonempty_eq_ok.mp hsteps
  have hlist := sequence_again (fun _ _ x _ _ ↦ step_again x) hsteps
  rw [← toValues_eq_map_steps] at hlist
  have horder : Entries.KeysInOrder ["name", "version", "description", "variables", "steps"] := by
    decide
  refine form_written (by rfl) horder (seq_ok (seq_ok (seq_ok (seq_ok (map_ok _ ?_) ?_) ?_) ?_) ?_)
  · exact field_written (by rfl) horder (.head _) (text_again hname)
  · exact field_written (by rfl) horder (.tail _ (.head _)) (version_again hnumber)
  · exact field_written (by rfl) horder (.tail _ (.tail _ (.head _)))
      (optional_again (fun _ ↦ text_again) hdescription)
  · exact field_written (by rfl) horder (.tail _ (.tail _ (.tail _ (.head _))))
      (optional_again (fun _ ↦ bindings_again) hbindings)
  · exact field_written (by rfl) horder (.tail _ (.tail _ (.tail _ (.tail _ (.head _)))))
      (nonempty_eq_ok.mpr ⟨hlist, hne⟩)

end BrowserFlow.Document

namespace BrowserFlow.Workflow

/-- A document that is accepted gives a workflow that is accepted again, with the same warnings. -/
theorem validate_idempotent (document : Datum) {validated : Validated}
    (h : validate document = .ok validated) :
    validate (Datum.ofValue validated.workflow.toValue) = .ok validated := by
  obtain ⟨hread, hissues, hwarnings⟩ := validate_eq_ok.mp h
  exact validate_eq_ok.mpr ⟨Document.workflow_again hread, hissues, hwarnings⟩

/-- A document that is not in its normal form: its name is padded, its version is a number, and
its conditions compare by signs. -/
def draft : Datum :=
  .object [("version", .number 0), ("name", .text " draft "), ("steps", .sequence [
    .object [("action", .text "if"), ("name", .text "check\n"),
      ("value", .object [("not", .object [("all", .sequence [
        .object [("left", .text "\x7b\x7b n \x7d\x7d"), ("operator", .text ">="),
          ("right", .number 1)] []])] [])] []),
      ("steps", .sequence [
        .object [("name", .text "go"), ("action", .text "click"), ("selector", .text " #a ")]
          []])] []])] []

/-- The draft is accepted, in its normal form and then as it is. -/
theorem validate_idempotent_draft : ∃ validated, validate draft = .ok validated ∧
    validated.workflow.name = "draft" ∧ validated.workflow.version = "0" ∧
    validate (Datum.ofValue validated.workflow.toValue) = .ok validated := by
  have haccepted : (validate draft).toOption.map (fun v ↦ (v.workflow.name, v.workflow.version)) =
      some (("draft" : Text), ("0" : Text)) := by decide +kernel
  obtain ⟨validated, hvalidated, hshape⟩ := Option.map_eq_some_iff.mp haccepted
  obtain ⟨hname, hversion⟩ := Prod.mk.inj hshape
  have hdraft := validate_of_toOption hvalidated
  exact ⟨validated, hdraft, hname, hversion, validate_idempotent draft hdraft⟩

/-- A run of a document is a run of the normal form of its workflow. -/
theorem run_toValue {σ : Type} (host : Host σ) (options : RunParameters) {document : Datum}
    {validated : Validated} (h : validate document = .ok validated) :
    run host options (Datum.ofValue validated.workflow.toValue) = run host options document := by
  obtain ⟨hread, hissues, hwarnings⟩ := validate_eq_ok.mp h
  have hagain : validate (Datum.ofValue validated.workflow.toValue) = .ok validated :=
    validate_eq_ok.mpr ⟨Document.workflow_again hread, hissues, hwarnings⟩
  funext turns live
  rw [run, run, h, hagain]

end BrowserFlow.Workflow
