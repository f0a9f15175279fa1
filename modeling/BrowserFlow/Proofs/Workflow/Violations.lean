import BrowserFlow.Proofs.Document.Located
import BrowserFlow.Proofs.Workflow.Literals

/-!
Which violations of a document are reported. Reading goes on behind an issue, so the issues of a
step are among those of the document, below the path of the step (`Document.issues_of_listAt?`), and
what cannot be read as a step has an issue (`Document.explained_step`). Main statement: every issue
of form of every step, at any depth and whatever else the document holds, is reported at the place
of the step, and when the form of the document is right every violation of a rule for steps is
(`Workflow.violations_reported`). The two kinds are not reported together: an issue of form anywhere
covers the violations of rules (`Workflow.not_forall_violations_reported`).
-/

set_option autoImplicit false
set_option relaxedAutoImplicit false

namespace BrowserFlow

/-! ### Issues of parts -/

namespace Issue

/-- The issue of a part as an issue of what holds the part at a path. -/
def under (path : List PathStep) (issue : Issue) : Issue := ⟨path ++ issue.path, issue.flaw⟩

theorem under_under (outer inner : List PathStep) (issue : Issue) :
    (issue.under inner).under outer = issue.under (outer ++ inner) := by
  simp [under]

end Issue

namespace Checked

variable {α β : Type} {d : Datum} {issue : Issue}

theorem issues_seq (f : Checked (α → β)) (c : Checked α) :
    (f <*> c).issues = f.issues ++ c.issues := rfl

theorem issues_form {keys : List Text} {members : Checked α} (hobject : d.isObject = true) :
    members.issues ⊆ (form keys d members).issues := by
  unfold form
  rw [if_pos hobject]
  dsimp only
  split
  · exact List.Subset.refl _
  · exact List.subset_append_left _ _

theorem issues_nonempty (c : Checked (List α)) : c.issues ⊆ (nonempty c).issues := by
  unfold nonempty
  split
  · exact List.subset_cons_self _ _
  · exact List.Subset.refl _

theorem issues_of_list {parts : List (Checked α)} {c : Checked α} (hpart : c ∈ parts)
    (h : issue ∈ c.issues) : issue ∈ (list parts).issues := by
  induction parts with
  | nil => cases hpart
  | cons first rest ih =>
    rcases List.mem_cons.mp hpart with rfl | hpart
    · exact List.mem_append_left _ h
    · exact List.mem_append_right _ (ih hpart)

/-- An issue of an item is one of the sequence, in the place of the item. -/
theorem issues_of_items {read : Datum → Checked α} {ds : List Datum} {index : Nat}
    (hitem : ds[index]? = some d) (h : issue ∈ (read d).issues) :
    issue.under [.index index] ∈ (sequence read (.sequence ds)).issues := by
  have hpart : (read d).within (.index index) ∈
      (ds.map read).mapIdx fun index c ↦ c.within (.index index) := by
    refine @List.mem_of_getElem? _ _ index _ ?_
    rw [List.getElem?_mapIdx, List.getElem?_map, hitem]
    rfl
  exact issues_of_list hpart (List.mem_map_of_mem h)

end Checked

/-! ### What cannot be read has an issue -/

namespace Checked

variable {α β : Type} {d : Datum} {c : Checked α} {read : Datum → Checked α}

/-- Whether a part that cannot be read has an issue. -/
def Explained (c : Checked α) : Prop := c.value? = none → c.issues ≠ []

namespace Explained

theorem ok (a : α) : Explained (ok a) := fun h ↦ by cases h

theorem refused (flaw : Flaw) : Explained (refused flaw : Checked α) :=
  fun _ ↦ List.cons_ne_nil _ _

theorem map {f : α → β} (h : Explained c) : Explained (f <$> c) := by
  intro hnone
  exact h (by simpa [Functor.map, Checked.map] using hnone)

theorem within {place : PathStep} (h : Explained c) : Explained (c.within place) := by
  intro hnone
  simpa [Checked.within] using h hnone

theorem seq {f : Checked (α → β)} (hf : Explained f) (hc : Explained c) : Explained (f <*> c) := by
  intro hnone
  rw [issues_seq]
  cases hfound : f.value? with
  | none => exact List.append_ne_nil_of_left_ne_nil (hf hfound) _
  | some g =>
    cases hgiven : c.value? with
    | none => exact List.append_ne_nil_of_right_ne_nil _ (hc hgiven)
    | some a => simp [Seq.seq, Checked.seq, hfound, hgiven] at hnone

theorem require {test : α → Bool} {flaw : Flaw} (h : Explained c) :
    Explained (require test flaw c) := by
  unfold Checked.require
  split
  · next a hvalue =>
    split
    · exact h
    · exact fun _ ↦ by simp
  · exact h

/-- Alternatives without one that can be read are summarised in an issue. -/
theorem firstOf (alternatives : List (Checked α)) : Explained (firstOf alternatives) := by
  unfold Checked.firstOf
  split
  · next c hclean =>
    intro hnone
    have hc := List.find?_some hclean
    simp [isClean, hnone] at hc
  · split
    · next c hreadable =>
      intro hnone
      have hc := List.find?_some hreadable
      simp [hnone] at hc
    · exact refused _

theorem list {parts : List (Checked α)} (h : ∀ c ∈ parts, Explained c) :
    Explained (list parts) := by
  induction parts with
  | nil => exact ok _
  | cons c rest ih =>
    exact seq (map (h c (.head _))) (ih fun part hpart ↦ h part (.tail _ hpart))

theorem sequence (h : ∀ ds, d = .sequence ds → ∀ x ∈ ds, Explained (read x)) :
    Explained (sequence read d) := by
  cases d with
  | sequence ds =>
    refine list fun c hc ↦ ?_
    obtain ⟨index, hindex, rfl⟩ := List.mem_mapIdx.mp hc
    refine within ?_
    rw [List.getElem_map]
    exact h ds rfl _ (List.getElem_mem _)
  | _ => exact refused _

theorem nonempty {c : Checked (List α)} (h : Explained c) : Explained (nonempty c) := by
  unfold Checked.nonempty
  split
  · exact fun _ ↦ List.cons_ne_nil _ _
  · exact h

theorem optional (h : Explained (read d)) : Explained (optional read d) := by
  unfold Checked.optional
  split
  · exact ok _
  · exact map h

theorem field {key : Text} (h : Explained (read (d.member key))) :
    Explained (field d key read) := within h

theorem form {keys : List Text} {members : Checked α} (h : Explained members) :
    Explained (form keys d members) := by
  unfold Checked.form
  split
  · dsimp only
    split
    · exact h
    · exact fun _ ↦ by simp
  · exact refused _

theorem record (h : ∀ x, Explained (read x)) : Explained (record read d) := by
  unfold Checked.record
  split
  · refine map (list fun c hc ↦ ?_)
    obtain ⟨⟨key, x⟩, -, rfl⟩ := List.mem_map.mp hc
    exact map (within (h x))
  · exact refused _

theorem text (trimmed nonempty : Bool) (d : Datum) : Explained (text trimmed nonempty d) := by
  cases d with
  | text t => exact require (ok _)
  | _ => exact refused _

theorem number (d : Datum) : Explained (number d) := by
  cases d with
  | number x =>
    unfold Checked.number
    dsimp only
    split
    · exact refused _
    · exact ok _
  | _ => exact refused _

theorem bool (d : Datum) : Explained (bool d) := by
  cases d with
  | bool b => exact ok b
  | _ => exact refused _

theorem word (options : List (Text × α)) (d : Datum) : Explained (word options d) := by
  cases d with
  | text t =>
    unfold Checked.word
    dsimp only
    split
    · exact ok _
    · exact refused _
  | _ => exact refused _

end Explained

end Checked

/-! ### Steps in documents -/

namespace Datum

/-- The items of a member that is a sequence. -/
def items? (d : Datum) (key : Text) : Option (List Datum) :=
  match d.member key with
  | .sequence ds => some ds
  | _ => none

/-- A list of what a document has for a step: a branch has two of them and a loop has one. -/
def list? (side : Side) (d : Datum) : Option (List Datum) :=
  match Document.formOf? Document.kinds (d.member "action"), side with
  | some .branch, .body => d.items? "steps"
  | some .branch, .otherwise => d.items? "else_steps"
  | some .loop, .body => d.items? "steps"
  | _, _ => none

/-- What a document has in the list at a site. -/
def listAt? (document : Datum) : Site → Option (List Datum)
  | [] => document.items? "steps"
  | (index, side) :: above => do
    let owners ← listAt? document above
    (← owners[index]?).list? side

/-- What a document has for the step at a place. -/
def stepAt? (document : Datum) (place : Place) : Option Datum := do
  (← listAt? document place.site)[place.index]?

variable {d : Datum} {key : Text} {ds : List Datum}

theorem member_of_items? (h : d.items? key = some ds) : d.member key = .sequence ds := by
  unfold items? at h
  split at h
  · next heq => rw [heq, Option.some.inj h]
  · cases h

theorem isObject_of_items? (h : d.items? key = some ds) : d.isObject = true := by
  have hmember := member_of_items? h
  cases d with
  | object own inherited => rfl
  | _ => cases hmember

theorem list?_cases {side : Side} (h : d.list? side = some ds) :
    d.items? side.name = some ds ∧
      (Document.formOf? Document.kinds (d.member "action") = some .branch ∨
        Document.formOf? Document.kinds (d.member "action") = some .loop ∧ side = .body) := by
  unfold list? at h
  split at h
  · next hkind => exact ⟨h, .inl hkind⟩
  · next hkind => exact ⟨h, .inl hkind⟩
  · next hkind => exact ⟨h, .inr ⟨hkind, rfl⟩⟩
  · cases h

end Datum

namespace Site

/-- The path to a list of steps. -/
def path : Site → List PathStep
  | [] => [.key "steps"]
  | (index, side) :: above => path above ++ [.index index, .key side.name]

end Site

namespace Place

/-- The path to a step. -/
def path (place : Place) : List PathStep := Site.path place.site ++ [.index place.index]

end Place

namespace Document

open Checked

variable {document d x : Datum} {ds : List Datum} {issue : Issue} {index : Nat}

/-- An issue of a step is one of the member that holds it, whether or not the member may be empty or
absent. -/
theorem issues_of_member {key : Text} (hitems : d.items? key = some ds)
    (hstep : ds[index]? = some x) (h : issue ∈ (step x).issues) :
    issue.under [.key key, .index index] ∈
        (field d key fun x ↦ nonempty (sequence step x)).issues ∧
      issue.under [.key key, .index index] ∈
        (field d key (Checked.optional (sequence step))).issues := by
  have hmember := Datum.member_of_items? hitems
  have hread : issue.under [.index index] ∈ (sequence step (d.member key)).issues := by
    rw [hmember]
    exact issues_of_items hstep h
  have hpresent : issue.under [.index index] ∈
      (Checked.optional (sequence step) (d.member key)).issues := by
    have hfilled : (d.member key).isAbsent = false := by
      rw [hmember]
      rfl
    rw [Checked.optional, hfilled]
    exact hread
  exact ⟨List.mem_map_of_mem (issues_nonempty _ hread), List.mem_map_of_mem hpresent⟩

/-- An issue of a step in a list of a step is one of the step. -/
theorem issues_of_list? {side : Side} (hlist : d.list? side = some ds)
    (hstep : ds[index]? = some x) (h : issue ∈ (step x).issues) :
    issue.under [.key side.name, .index index] ∈ (step d).issues := by
  obtain ⟨hitems, hkind⟩ := Datum.list?_cases hlist
  have hobject := Datum.isObject_of_items? hitems
  obtain ⟨hrequired, hoptional⟩ := issues_of_member hitems hstep h
  rcases hkind with hkind | ⟨hkind, rfl⟩
  · rw [step_branch hobject hkind]
    refine issues_form hobject ?_
    cases side with
    | body => exact List.mem_append_left _ (List.mem_append_right _ hrequired)
    | otherwise => exact List.mem_append_right _ hoptional
  · rw [step_loop hobject hkind]
    exact issues_form hobject (List.mem_append_right _ hrequired)

/-- An issue of a step at a site is one of the workflow, by induction on the way up. -/
theorem issues_of_listAt? {site : Site} (hlist : document.listAt? site = some ds)
    (hstep : ds[index]? = some x) (h : issue ∈ (step x).issues) :
    issue.under (Place.path ⟨site, index⟩) ∈ (workflow document).issues := by
  induction site generalizing ds index x issue with
  | nil =>
    exact issues_form (Datum.isObject_of_items? hlist)
      (List.mem_append_right _ (issues_of_member hlist hstep h).1)
  | cons way above ih =>
    obtain ⟨owner, side⟩ := way
    obtain ⟨owners, howners, hbelow⟩ := Option.bind_eq_some_iff.mp hlist
    obtain ⟨d, hd, hside⟩ := Option.bind_eq_some_iff.mp hbelow
    have hissue := ih howners hd (issues_of_list? hside hstep h)
    rw [Issue.under_under] at hissue
    simpa [Place.path, Site.path] using hissue

/-! ### The parts of steps -/

theorem explained_value (d : Datum) : Explained (value d) := by
  unfold value
  split
  · exact .ok _
  · exact .refused _

theorem explained_condition (d : Datum) : Explained (condition d) := by
  rw [condition_eq]
  exact .firstOf _

theorem explained_someText (d : Datum) : Explained (someText d) := .text _ _ d

theorem explained_amount (d : Datum) : Explained (amount d) := .firstOf _

theorem explained_iteration (d : Datum) : Explained (iteration d) := by
  unfold iteration
  split
  · split
    · next read hform =>
      obtain ⟨name, -, hmem⟩ := formOf?_eq_some hform
      simp only [loopForms, List.mem_cons, Prod.mk.injEq, List.not_mem_nil, or_false] at hmem
      rcases hmem with ⟨-, rfl⟩ | ⟨-, rfl⟩ | ⟨-, rfl⟩ | ⟨-, rfl⟩
      · exact .form (.seq (.map (.field (explained_condition _)))
          (.field (.optional (.require (.require (.number _))))))
      · exact .form (.seq (.seq (.seq (.map (.field (explained_someText _)))
          (.field (explained_amount _))) (.field (explained_amount _)))
          (.field (.optional (explained_amount _))))
      · exact .form (.seq (.map (.field (explained_someText _))) (.field (.firstOf _)))
      · exact .form (.seq (.map (.field (explained_amount _)))
          (.field (.optional (explained_someText _))))
    · exact .within (.refused _)
  · exact .refused _

theorem explained_header (d : Datum) : Explained (header d) := by
  have hplan : ∀ x, Explained (retryPlan x) := fun x ↦
    .form (.seq (.map (.field (.require (.require (.number _)))))
      (.field (.require (.require (.number _)))))
  have htimeout : ∀ x, Explained (timeout x) := fun x ↦ .require (.require (.number _))
  exact .seq (.seq (.seq (.seq (.seq (.map (.field (.text _ _ _)))
    (.field (.optional (.text _ _ _)))) (.field (.optional (.word _ _))))
    (.field (.optional (hplan _)))) (.field (.optional (htimeout _))))
    (.field (.optional (explained_condition _)))

theorem explained_action {kind : ActionKind} {form : ActionForm}
    (h : actionForm? kind = some form) (d : Datum) : Explained (form.read d) := by
  have hselector : ∀ {β : Type} (make : Text → β) (key : Text),
      Explained (make <$> field d key someText) := fun make key ↦
    .map (.field (explained_someText _))
  cases kind <;> cases h
  case wait => exact .map (.field (.optional (explained_amount _)))
  case screenshot => exact .map (.field (.optional (explained_someText _)))
  case stop => exact .map (.field (.optional (explained_someText _)))
  case type => exact .seq (hselector _ _) (.field (.firstOf _))
  case setInputFiles => exact .seq (hselector _ _) (.field (.firstOf _))
  case extract => exact .seq (hselector _ _) (.field (.optional (.record fun x ↦ .text _ _ x)))
  case getAttribute => exact .seq (hselector _ _) (.field (explained_someText _))
  case save => exact .seq (hselector _ _) (.field (.optional (explained_value _)))
  case setVariable =>
    exact .seq (.seq (hselector _ _) (.field (explained_value _))) (.field (.optional (.bool _)))
  all_goals exact hselector _ _

/-- What cannot be read as a step has an issue. -/
theorem explained_step (d : Datum) : Explained (step d) := by
  by_cases hobject : d.isObject = true
  · cases hkind : formOf? kinds (d.member "action") with
    | none =>
      rw [step, if_pos hobject]
      simp only [hkind]
      exact .within (.refused _)
    | some kind =>
      have hinner : ∀ key, Explained (sequence step (d.member key)) := fun key ↦
        .sequence fun ds hds x hx ↦
          have : sizeOf x < sizeOf d := Datum.sizeOf_item_lt hds hx
          explained_step x
      cases haction : actionForm? kind with
      | some form =>
        rw [step_act hobject hkind haction]
        exact .form (.seq (.map (explained_header d)) (explained_action haction d))
      | none =>
        cases kind with
        | branch =>
          rw [step_branch hobject hkind]
          exact .form (.seq (.seq (.seq (.map (explained_header d))
            (.field (explained_condition _))) (.field (.nonempty (hinner _))))
            (.field (.optional (hinner _))))
        | loop =>
          rw [step_loop hobject hkind]
          exact .form (.seq (.seq (.map (explained_header d)) (.field (explained_iteration _)))
            (.field (.nonempty (hinner _))))
        | _ => cases haction
  · rw [step, if_neg hobject]
    exact .refused _
termination_by sizeOf d

/-! ### What was read from the steps of a document -/

variable {w : Workflow} {s : Step} {place : Place}

theorem exists_of_map_step {steps : List Step} (h : ds.map step = steps.map ok)
    (hx : ds[index]? = some x) : ∃ s, step x = ok s ∧ steps[index]? = some s := by
  have hindex := congrArg (·[index]?) h
  simp only [List.getElem?_map, hx, Option.map_some] at hindex
  cases hs : steps[index]? with
  | none => simp [hs] at hindex
  | some s =>
    rw [hs] at hindex
    exact ⟨s, Option.some.inj hindex, rfl⟩

theorem map_step_of_items? {key : Text} {steps : List Step} (hitems : d.items? key = some ds)
    (h : sequence step (d.member key) = ok steps) : ds.map step = steps.map ok := by
  obtain ⟨found, hfound, hsteps⟩ := sequence_eq_ok.mp h
  rw [Datum.member_of_items? hitems] at hfound
  rwa [Datum.sequence.inj hfound]

/-- A list of what a step was read from is what a list of the step was read from. -/
theorem exists_list?_of_step {side : Side} (h : step d = ok s) (hlist : d.list? side = some ds) :
    ∃ steps, s.list? side = some steps ∧ ds.map step = steps.map ok := by
  obtain ⟨hitems, hcontrol⟩ := Datum.list?_cases hlist
  cases step_parts h with
  | act hkind hform =>
    rcases hcontrol with hcontrol | ⟨hcontrol, -⟩ <;> rw [hcontrol] at hkind <;> cases hkind <;>
      cases hform
  | branch hkind _ _ _ hsteps _ hotherwise =>
    cases side with
    | body => exact ⟨_, rfl, map_step_of_items? hitems hsteps⟩
    | otherwise =>
      rcases optional_eq_ok.mp hotherwise with ⟨habsent, -⟩ | ⟨-, steps, hsteps, rfl⟩
      · have hmember : d.member "else_steps" = .sequence ds := Datum.member_of_items? hitems
        rw [hmember] at habsent
        cases habsent
      · exact ⟨steps, rfl, map_step_of_items? hitems hsteps⟩
  | loop hkind _ _ _ hsteps =>
    rcases hcontrol with hcontrol | ⟨-, rfl⟩
    · rw [hcontrol] at hkind
      cases hkind
    · exact ⟨_, rfl, map_step_of_items? hitems hsteps⟩

/-- The step at a place of a workflow was read from what the document has there. -/
theorem exists_step_of_stepAt? (hform : workflow document = ok w)
    (hplace : document.stepAt? place = some x) :
    ∃ s, step x = ok s ∧ Step.stepAt? w.steps place = some s := by
  have hlists : ∀ {site : Site} {ds : List Datum}, document.listAt? site = some ds →
      ∃ steps, Step.listAt? w.steps site = some steps ∧ ds.map step = steps.map ok := by
    intro site
    induction site with
    | nil => exact fun hlist ↦
        ⟨w.steps, rfl, map_step_of_items? hlist (workflow_parts hform).2⟩
    | cons way above ih =>
      intro ds hlist
      obtain ⟨owners, howners, hbelow⟩ := Option.bind_eq_some_iff.mp hlist
      obtain ⟨d, hd, hside⟩ := Option.bind_eq_some_iff.mp hbelow
      obtain ⟨steps, hsteps, hmap⟩ := ih howners
      obtain ⟨owner, howner, hindex⟩ := exists_of_map_step hmap hd
      obtain ⟨inner, hinner, hread⟩ := exists_list?_of_step howner hside
      refine ⟨inner, ?_, hread⟩
      rw [Step.listAt?, hsteps]
      simp [hindex, hinner]
  obtain ⟨ds, hds, hx⟩ := Option.bind_eq_some_iff.mp hplace
  obtain ⟨steps, hsteps, hmap⟩ := hlists hds
  obtain ⟨s, hs, hindex⟩ := exists_of_map_step hmap hx
  exact ⟨s, hs, by simp [Step.stepAt?, hsteps, hindex]⟩

end Document

/-! ### Paths -/

namespace Issue

/-- A step of a path, written behind other steps. -/
def mark : PathStep → Text
  | .index n => "[" ++ Text.ofNat n ++ "]"
  | .key key => "." ++ key

/-- The written form of a path that goes on behind another one. -/
def behind (path : List PathStep) : Text := .concat (path.map mark)

/-- A path written so far, one step further. -/
def extend (out : Text) : PathStep → Text
  | .index n => out ++ "[" ++ Text.ofNat n ++ "]"
  | .key key => if out.isEmpty then key else out ++ "." ++ key

theorem behind_cons (step : PathStep) (rest : List PathStep) :
    behind (step :: rest) = mark step ++ behind rest := rfl

theorem extend_of_nonempty {out : Text} (hout : out.isEmpty = false) (step : PathStep) :
    extend out step = out ++ mark step := by
  cases step with
  | index n => simp [extend, mark, Text.append_assoc]
  | key key => simp [extend, mark, hout, Text.append_assoc]

theorem isEmpty_append {out : Text} (hout : out.isEmpty = false) (more : Text) :
    (out ++ more).isEmpty = false := by
  simp_all [Text.isEmpty]

theorem foldl_extend (path : List PathStep) {out : Text} (hout : out.isEmpty = false) :
    List.foldl extend out path = out ++ behind path := by
  induction path generalizing out with
  | nil => exact (Text.append_empty out).symm
  | cons step rest ih =>
    rw [List.foldl_cons, extend_of_nonempty hout, ih (isEmpty_append hout _), behind_cons,
      Text.append_assoc]

end Issue

namespace Site

theorem isEmpty_toText (site : Site) : (toText site).isEmpty = false := by
  induction site with
  | nil => decide
  | cons way above ih =>
    rw [toText]
    exact Issue.isEmpty_append (Issue.isEmpty_append (Issue.isEmpty_append
      (Issue.isEmpty_append ih _) _) _) _

/-- The path to a list of steps is written as in reports. -/
theorem foldl_path (site : Site) :
    List.foldl Issue.extend Text.empty (path site) = toText site := by
  induction site with
  | nil => decide
  | cons way above ih =>
    obtain ⟨index, side⟩ := way
    have hclosing : Text.ofString "]." = "]" ++ Text.ofString "." := by decide
    rw [path, List.foldl_append, ih, Issue.foldl_extend _ (isEmpty_toText above), toText, hclosing]
    have hnil : Issue.behind [] = Text.empty := rfl
    simp only [Issue.behind_cons, hnil, Issue.mark, Text.append_empty, Text.append_assoc]

end Site

namespace Issue

/-- An issue of a step is reported at the path of the step. -/
theorem line_under (place : Place) (issue : Issue) : (issue.under place.path).line =
    place.toText ++ behind issue.path ++ ": " ++ issue.flaw.message := by
  have hplace : List.foldl extend Text.empty place.path = place.toText := by
    rw [Place.path, List.foldl_append, Site.foldl_path]
    rfl
  have hfilled : place.toText.isEmpty = false :=
    isEmpty_append (isEmpty_append (isEmpty_append (Site.isEmpty_toText place.site) _) _) _
  have hwritten : List.foldl extend Text.empty (place.path ++ issue.path) =
      place.toText ++ behind issue.path := by
    rw [List.foldl_append, hplace, foldl_extend _ hfilled]
  have htext : pathText (place.path ++ issue.path) = place.toText ++ behind issue.path := by
    change (if (List.foldl extend Text.empty (place.path ++ issue.path)).isEmpty = true then _
      else List.foldl extend Text.empty (place.path ++ issue.path)) = _
    rw [hwritten, isEmpty_append hfilled]
    rfl
  exact congrArg (fun path : Text ↦ path ++ ": " ++ issue.flaw.message) htext

end Issue

/-! ### Rules for steps -/

namespace Step

/-- A violation of a rule for steps: a template that cannot be read, retries of a step that controls
others, or an operand, written out, that is no number, no natural number, zero, less than zero or no
name where it has to be one. -/
inductive Violates (step : Step) : StepFlaw → Prop
  /-- A malformed template. -/
  | template {source : Text} {fault : Fault} (hsource : source ∈ step.templates)
      (hfault : Template.read source = .error fault) : Violates step (.template fault)
  /-- Retries of a branch or a loop. -/
  | retriedControl (hcontrol : step.isControl = true) (hretry : step.header.onError = some .retry) :
      Violates step (.retriedControl step.kind)
  /-- A bound of a range that is no finite number. -/
  | bound {name : Text} {amount : Amount} {x : Number} (hbound : .bound name amount ∈ step.counted)
      (hx : amount.literal? = some x) (hinfinite : x.isFinite = false) :
      Violates step (.operandNotNumber name)
  /-- A step of a range that is no finite number. -/
  | pace {amount : Amount} {x : Number} (hpace : .pace amount ∈ step.counted)
      (hx : amount.literal? = some x) (hinfinite : x.isFinite = false) :
      Violates step (.operandNotNumber "step")
  /-- A step of a range that is zero. -/
  | zeroStep {amount : Amount} {x : Number} (hpace : .pace amount ∈ step.counted)
      (hx : amount.literal? = some x) (hzero : x.isZero = true) : Violates step .zeroStep
  /-- A number of turns that is no natural number. -/
  | turns {amount : Amount} {x : Number} (hturns : .turns amount ∈ step.counted)
      (hx : amount.literal? = some x) (hother : ∀ n : Nat, x.toInt? ≠ some (n : Int)) :
      Violates step .badTimes
  /-- A target that is no name of a variable. -/
  | target {name : Text} (htarget : .target name ∈ step.counted)
      (hplain : Template.hasPlaceholder name = false) (hname : name.isName = false) :
      Violates step (.badTarget name)
  /-- A wait for less than no time. -/
  | length {amount : Amount} {x : Number} (hlength : .length amount ∈ step.counted)
      (hx : amount.literal? = some x) (hless : Number.le 0 x = false) :
      Violates step .negativeWait

variable {step : Step} {flaw : StepFlaw}

/-- Checking a step by itself finds every violation. -/
theorem Violates.mem_flaws (h : step.Violates flaw) : flaw ∈ step.flaws := by
  cases h with
  | template hsource hfault =>
    refine List.mem_append_left _ (List.mem_append_left _ ?_)
    exact List.mem_filterMap.mpr ⟨_, hsource, by rw [hfault]⟩
  | retriedControl hcontrol hretry =>
    refine List.mem_append_left _ (List.mem_append_right _ ?_)
    simp [controlFlaws, hcontrol, hretry]
  | bound hbound hx hinfinite =>
    obtain ⟨_, _, _, _, _, _, rfl, hside⟩ := standsIn_of_counted hbound
    refine mem_flaws_of_loop ?_
    rcases hside with ⟨rfl, rfl⟩ | ⟨rfl, rfl⟩ <;> simp [loopFlaws, operandFlaws, hx, hinfinite]
  | pace hpace hx hinfinite =>
    obtain ⟨_, _, _, _, _, rfl⟩ := standsIn_of_counted hpace
    exact mem_flaws_of_loop (by simp [loopFlaws, operandFlaws, hx, hinfinite])
  | zeroStep hpace hx hzero =>
    obtain ⟨_, _, _, _, _, rfl⟩ := standsIn_of_counted hpace
    exact mem_flaws_of_loop (by simp [loopFlaws, hx, hzero])
  | @turns amount x hturns hx hother =>
    obtain ⟨_, _, _, rfl⟩ := standsIn_of_counted hturns
    have hunnatural : ¬(x.isInteger && Number.le 0 x) = true := by
      intro hnatural
      obtain ⟨hinteger, hle⟩ := Bool.and_eq_true_iff.mp hnatural
      obtain ⟨n, hn⟩ := Number.exists_nat hinteger hle
      exact hother n hn
    exact mem_flaws_of_loop (by simp only [loopFlaws, hx, if_neg hunnatural, List.mem_singleton])
  | target htarget hplain hname =>
    obtain ⟨_, _, _, rfl⟩ := standsIn_of_counted htarget
    exact List.mem_append_right _ (by simp [hplain, hname])
  | length hlength hx hless =>
    obtain ⟨_, rfl⟩ := standsIn_of_counted hlength
    exact List.mem_append_right _ (by simp [hx, hless])

end Step

namespace Workflow

variable {document x : Datum} {place : Place}

/-- A document with an issue is refused with all of its issues. -/
theorem validate_of_issue {issue : Issue} (h : issue ∈ (Document.workflow document).issues) :
    ∃ lines, validate document = .error (.validation lines) ∧ issue.line ∈ lines := by
  refine ⟨(Document.workflow document).issues.map Issue.line, ?_, List.mem_map_of_mem h⟩
  unfold validate
  dsimp only
  split
  · next hnone =>
    rw [hnone] at h
    cases h
  · rfl

/-- What is wrong with a step is reported at its place, whatever else the document holds: each of
its issues of form, of which a step of a wrong form has one, and each of its violations of rules
when the form of the document is right. -/
theorem violations_reported (hplace : document.stepAt? place = some x) :
    ((Document.step x).isClean = false → (Document.step x).issues ≠ []) ∧
    (∀ issue ∈ (Document.step x).issues, ∃ lines, validate document = .error (.validation lines) ∧
      place.toText ++ Issue.behind issue.path ++ ": " ++ issue.flaw.message ∈ lines) ∧
    ∀ w, Document.workflow document = .ok w → ∃ step, Document.step x = .ok step ∧
      ∀ flaw, step.Violates flaw → ∃ lines, validate document = .error (.validation lines) ∧
        flaw.line place.toText ∈ lines := by
  refine ⟨fun hform ↦ ?_, fun issue hissue ↦ ?_, fun w hform ↦ ?_⟩
  · cases hvalue : (Document.step x).value? with
    | none => exact Document.explained_step x hvalue
    | some step =>
      simpa [Checked.isClean, hvalue] using hform
  · obtain ⟨ds, hlist, hstep⟩ := Option.bind_eq_some_iff.mp hplace
    have hwhole := Document.issues_of_listAt? hlist hstep hissue
    obtain ⟨lines, hlines, hline⟩ := validate_of_issue hwhole
    rw [Issue.line_under] at hline
    exact ⟨lines, hlines, hline⟩
  · obtain ⟨step, hread, hstep⟩ := Document.exists_step_of_stepAt? hform hplace
    exact ⟨step, hread, fun flaw hflaw ↦ exists_lines_of_flaw hform hstep hflaw.mem_flaws⟩

/-- A wait for less than no time, as a document has it. -/
def shortWait : Datum :=
  .object [("name", .text "Pause"), ("action", .text "wait"), ("value", .number (.ofInt (-1)))] []

/-- A document with such waits: one behind a branch and one in a loop in the second list of the
branch. -/
def shortWaits : Datum :=
  .object [("name", .text "short"), ("version", .text "1"), ("steps", .sequence [
    .object [("name", .text "check"), ("action", .text "if"),
      ("value", .object [("left", .number 1), ("operator", .text "=="), ("right", .number 1)] []),
      ("steps", .sequence [
        .object [("name", .text "go"), ("action", .text "click"), ("selector", .text "a")] []]),
      ("else_steps", .sequence [
        .object [("name", .text "twice"), ("action", .text "loop"),
          ("value", .object [("type", .text "repeat"), ("times", .number 2)] []),
          ("steps", .sequence [shortWait])] []])] [],
    shortWait])] []

/-- Whether a step is a wait for less than no time. -/
def isShortWait : Step → Bool
  | .act _ (.wait (some (.number x))) => !Number.le 0 x
  | _ => false

theorem violates_of_isShortWait {step : Step} (h : isShortWait step = true) :
    step.Violates .negativeWait := by
  unfold isShortWait at h
  split at h
  · exact .length (.head _) rfl (by simpa using h)
  · cases h

theorem step_shortWait {step : Step} (h : Document.step shortWait = .ok step) :
    step.Violates .negativeWait := by
  have hshort : (Document.step shortWait).value?.all isShortWait = true := by decide +kernel
  rw [h] at hshort
  exact violates_of_isShortWait hshort

/-- Both waits are reported. -/
theorem violations_reported_shortWaits :
    shortWaits.stepAt? ⟨[(0, .body), (0, .otherwise)], 0⟩ = some shortWait ∧
    shortWaits.stepAt? ⟨[], 1⟩ = some shortWait ∧
    ∃ lines, validate shortWaits = .error (.validation lines) ∧
      ("steps[0].else_steps[0].steps[0].value: wait duration must be a non-negative number" : Text)
        ∈ lines ∧
      ("steps[1].value: wait duration must be a non-negative number" : Text) ∈ lines := by
  have hform : (Document.workflow shortWaits).isClean = true := by decide +kernel
  obtain ⟨w, hw⟩ := (Checked.isClean_iff _).mp hform
  have hinner : shortWaits.stepAt? ⟨[(0, .body), (0, .otherwise)], 0⟩ = some shortWait := rfl
  have houter : shortWaits.stepAt? ⟨[], 1⟩ = some shortWait := rfl
  obtain ⟨step, hstep, hreported⟩ := (violations_reported hinner).2.2 w hw
  obtain ⟨lines, hlines, hline⟩ := hreported _ (step_shortWait hstep)
  obtain ⟨other, hother, hreported⟩ := (violations_reported houter).2.2 w hw
  obtain ⟨others, hothers, hlast⟩ := hreported _ (step_shortWait hother)
  rw [hlines] at hothers
  cases hothers
  have hinnerLine : StepFlaw.negativeWait.line (Place.toText ⟨[(0, .body), (0, .otherwise)], 0⟩) =
      "steps[0].else_steps[0].steps[0].value: wait duration must be a non-negative number" := by
    decide +kernel
  have houterLine : StepFlaw.negativeWait.line (Place.toText ⟨[], 1⟩) =
      "steps[1].value: wait duration must be a non-negative number" := by decide +kernel
  rw [hinnerLine] at hline
  rw [houterLine] at hlast
  exact ⟨hinner, houter, lines, hlines, hline, hlast⟩

/-- A document with two steps: a click without a selector and a wait for less than no time. -/
def clickAndWait : Datum :=
  .object [("name", .text "two"), ("version", .text "1.0"), ("steps", .sequence [
    .object [("name", .text "Press"), ("action", .text "click")] [], shortWait])] []

/-- Whether a line is missing among those that a document is refused with. -/
def isUnreported (document : Datum) (line : Text) : Bool :=
  match validate document with
  | .error (.validation lines) => !lines.contains line
  | _ => true

theorem notMem_of_isUnreported {line : Text} {lines : List Text}
    (h : isUnreported document line = true)
    (hlines : validate document = .error (.validation lines)) : line ∉ lines := by
  simpa [isUnreported, hlines] using h

/-- Not all that is wrong with the steps of a document is reported together: a step of a wrong form
covers the violations of rules by the other steps. -/
theorem not_forall_violations_reported : ¬∀ document place x issue place' x' step flaw,
    document.stepAt? place = some x → issue ∈ (Document.step x).issues →
      document.stepAt? place' = some x' → Document.step x' = .ok step → step.Violates flaw →
      ∃ lines, validate document = .error (.validation lines) ∧
        place.toText ++ Issue.behind issue.path ++ ": " ++ issue.flaw.message ∈ lines ∧
        flaw.line place'.toText ∈ lines := by
  intro hall
  have hclick : clickAndWait.stepAt? ⟨[], 0⟩ =
      some (.object [("name", .text "Press"), ("action", .text "click")] []) := rfl
  have hwait : clickAndWait.stepAt? ⟨[], 1⟩ = some shortWait := rfl
  have hwrong : (Document.step (.object [("name", .text "Press"), ("action", .text "click")]
      [])).issues.isEmpty = false := by decide +kernel
  obtain ⟨issue, hissue⟩ := List.exists_mem_of_ne_nil _ (List.isEmpty_eq_false_iff.mp hwrong)
  have hright : (Document.step shortWait).isClean = true := by decide +kernel
  obtain ⟨step, hstep⟩ := (Checked.isClean_iff _).mp hright
  obtain ⟨lines, hlines, -, hline⟩ := hall clickAndWait _ _ issue _ _ step .negativeWait hclick
    hissue hwait hstep (step_shortWait hstep)
  have hcovered : isUnreported clickAndWait
      (StepFlaw.negativeWait.line (Place.toText ⟨[], 1⟩)) = true := by decide +kernel
  exact notMem_of_isUnreported hcovered hlines hline

end Workflow

end BrowserFlow
