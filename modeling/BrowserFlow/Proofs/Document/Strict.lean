import BrowserFlow.Proofs.Document.Located

/-!
Strict forms. The parts of a document that are objects, from the workflow down
to its steps, conditions, loops and plans for retries, have forms that take
certain keys and no others (`Part.keys`); which form an object has is told by
one of its members, which no other form of the part takes along
(`conditionForms_unique`). A part is accepted only with the parts below it
(`Part.accepts_member`), and only with keys of its form
(`Part.keys_of_accepts`). Main statement, by induction on the way down: a
document is no longer accepted when one of its objects, at any depth, gets
another key (`workflow_strict`).
-/

set_option autoImplicit false
set_option relaxedAutoImplicit false

namespace BrowserFlow

/-! ### Changed objects -/

namespace Entries

variable {α : Type}

/-- One more entry hides none under another key. -/
theorem find?_added {key other : Text} (h : key ≠ other) (value : α) (before after : Entries α) :
    find? (before ++ (key, value) :: after) other = find? (before ++ after) other := by
  induction before with
  | nil => exact if_neg h
  | cons entry rest ih =>
    obtain ⟨name, old⟩ := entry
    by_cases hname : name = other
    · rw [List.cons_append, List.cons_append, find?, find?, if_pos hname, if_pos hname]
    · rw [List.cons_append, List.cons_append, find?, find?, if_neg hname, if_neg hname, ih]

end Entries

namespace Datum

/-- The object with another member under a key, its own or that of its ancestor. -/
def setMember (d : Datum) (key : Text) (x : Datum) : Datum :=
  match d with
  | .object own inherited =>
    if Entries.has own key then .object (Entries.replace key x own) inherited
    else .object own (Entries.replace key x inherited)
  | other => other

variable {d x : Datum} {own inherited before after : Entries Datum} {key other : Text}

theorem member_object : (object own inherited).member key =
    ((Entries.find? own key).or (Entries.find? inherited key)).getD .absent := by
  rw [member]
  cases Entries.find? own key <;> rfl

theorem member_setMember (h : (d.member key).isAbsent = false) :
    (d.setMember key x).member key = x := by
  cases d with
  | object own inherited =>
    rw [member_object] at h
    rw [setMember]
    by_cases hown : Entries.has own key = true
    · rw [if_pos hown, member_object, Entries.find?_replace_self own key x hown]
      rfl
    · rw [Entries.has, Option.isSome_iff_ne_none, not_not] at hown
      rw [hown, Option.none_or] at h
      have hinherited : (Entries.find? inherited key).isSome = true := by
        cases hfound : Entries.find? inherited key with
        | none => simp [hfound, isAbsent] at h
        | some y => rfl
      rw [if_neg (by simp [Entries.has, hown]), member_object, hown,
        Entries.find?_replace_self inherited key x hinherited]
      rfl
  | _ => cases h

theorem member_setMember_of_ne (d x : Datum) (h : key ≠ other) :
    (d.setMember key x).member other = d.member other := by
  cases d with
  | object own inherited =>
    rw [setMember]
    split <;> rw [member_object, member_object, Entries.find?_replace_of_ne _ _ _ _ h]
  | _ => rfl

theorem member_added (h : key ≠ other) : (object (before ++ (key, x) :: after) inherited).member
    other = (object (before ++ after) inherited).member other := by
  rw [member_object, member_object, Entries.find?_added h]

theorem mem_listed_object : key ∈ (object own inherited).listed.map Prod.fst ↔
    key ∈ Entries.keys own ∨ key ∈ Entries.keys inherited := by
  rw [listed, List.map_append, List.mem_append]
  constructor
  · rintro (hown | hinherited)
    · exact .inl hown
    · exact .inr (((List.filter_sublist).map _).subset hinherited)
  · rintro (hown | hinherited)
    · exact .inl hown
    · by_cases hown : key ∈ Entries.keys own
      · exact .inl hown
      · obtain ⟨entry, hentry, rfl⟩ := List.mem_map.mp hinherited
        refine .inr (List.mem_map.mpr ⟨entry, List.mem_filter.mpr ⟨hentry, ?_⟩, rfl⟩)
        simp [(Entries.has_eq_false_iff own entry.1).mpr hown]

theorem mem_listed_added (h : other ∈ (object (before ++ after) inherited).listed.map Prod.fst) :
    other ∈ (object (before ++ (key, x) :: after) inherited).listed.map Prod.fst := by
  rw [mem_listed_object] at h ⊢
  refine h.imp_left fun hown ↦ ?_
  have hsub : (before ++ after).Sublist (before ++ (key, x) :: after) :=
    (List.sublist_cons_self _ _).append_left before
  exact (hsub.map _).subset hown

/-- A member that is there is listed. -/
theorem mem_listed_of_member (h : (d.member key).isAbsent = false) :
    key ∈ d.listed.map Prod.fst := by
  cases d with
  | object own inherited =>
    rw [mem_listed_object, ← Entries.has_eq_true_iff, ← Entries.has_eq_true_iff]
    by_contra hnone
    obtain ⟨hown, hinherited⟩ := not_or.mp hnone
    simp only [Entries.has, Bool.not_eq_true, Option.isSome_eq_false_iff,
      Option.isNone_iff_eq_none] at hown hinherited
    simp [member_object, hown, hinherited, isAbsent] at h
  | _ => cases h

end Datum

namespace Document

open Checked

/-! ### Forms -/

/-- The parts of a document that are objects with a form, and the lists of such parts. -/
inductive Part where
  | workflow | step | condition | loop | retry
  | listOf (part : Part)
  deriving DecidableEq

/-- The keys that a step with an action takes. -/
def actionKeys (kind : ActionKind) : List Text :=
  match actionForm? kind with
  | some form => headerKeys ++ form.keys
  | none => if kind = .branch then headerKeys ++ branchKeys else headerKeys ++ loopKeys

/-- The keys of the four loops, by their names. -/
def loopFormKeys : List (Text × List Text) :=
  [("while", ["type", "condition", "max_iterations"]),
    ("for", ["type", "variable", "start", "end", "step"]),
    ("for_each", ["type", "variable", "items"]), ("repeat", ["type", "times", "variable"])]

/-- The keys of the four conditions, each with the one that it cannot do without. -/
def conditionForms : List (Text × List Text) :=
  [("operator", ["operator", "left", "right"]), ("all", ["all"]), ("any", ["any"]),
    ("not", ["not"])]

/-- The parts in a condition. -/
def conditionMembers : List (Text × Part) :=
  [("all", .listOf .condition), ("any", .listOf .condition), ("not", .condition)]

/-- The parts in a step with an action besides those that every step may have. -/
def actionMembers : ActionKind → List (Text × Part)
  | .branch =>
    [("value", .condition), ("steps", .listOf .step), ("else_steps", .listOf .step)]
  | .loop => [("value", .loop), ("steps", .listOf .step)]
  | _ => []

namespace Part

/-- Whether a datum is read as a part without issues. -/
def accepts : Part → Datum → Bool
  | .workflow, d => (Document.workflow d).isClean
  | .step, d => (Document.step d).isClean
  | .condition, d => (Document.condition d).isClean
  | .loop, d => (iteration d).isClean
  | .retry, d => (retryPlan d).isClean
  | .listOf part, .sequence items => items.all part.accepts
  | .listOf _, _ => false

/-- The keys that the form of an object takes, as a part. -/
def keys : Part → Datum → List Text
  | .workflow, _ => ["name", "version", "description", "variables", "steps"]
  | .step, d => ((formOf? kinds (d.member "action")).map actionKeys).getD []
  | .condition, d =>
    ((conditionForms.find? fun form ↦ decide (form.1 ∈ d.listed.map Prod.fst)).map Prod.snd).getD []
  | .loop, d => (formOf? loopFormKeys (d.member "type")).getD []
  | .retry, _ => ["max_attempts", "delay_seconds"]
  | .listOf _, _ => []

/-- The members of an object that are parts themselves. -/
def members : Part → Datum → List (Text × Part)
  | .workflow, _ => [("steps", .listOf .step)]
  | .step, d => ("condition", .condition) :: ("retry", .retry) ::
      ((formOf? kinds (d.member "action")).map actionMembers).getD []
  | .condition, _ => conditionMembers
  | .loop, _ => [("condition", .condition)]
  | .retry, _ => []
  | .listOf _, _ => []

/-- A part of which one object, at some depth, gets one more key, which its form does not take. -/
inductive Widens : Part → Datum → Datum → Prop
  /-- The object itself gets the key, anywhere among its own. -/
  | here {part : Part} {before after inherited : Entries Datum} {key : Text} {x : Datum}
      (hforeign : key ∉ part.keys (.object (before ++ after) inherited)) :
      Widens part (.object (before ++ after) inherited)
        (.object (before ++ (key, x) :: after) inherited)
  /-- An object in one of its members gets the key. -/
  | member {part below : Part} {own inherited : Entries Datum} {key : Text} {x : Datum}
      (hmember : (key, below) ∈ part.members (.object own inherited))
      (h : Widens below ((Datum.object own inherited).member key) x) :
      Widens part (.object own inherited) ((Datum.object own inherited).setMember key x)
  /-- An object in one of the items of a list gets the key. -/
  | item {part : Part} {items : List Datum} {index : Nat} {old x : Datum}
      (hitem : items[index]? = some old) (h : Widens part old x) :
      Widens (.listOf part) (.sequence items) (.sequence (items.set index x))

end Part

/-! ### What is accepted with its parts -/

variable {d : Datum}

theorem isClean_of_eq_ok {α : Type} {c : Checked α} {a : α} (h : c = ok a) : c.isClean = true :=
  (isClean_iff c).mpr ⟨a, h⟩

theorem isClean_of_optional {α : Type} {read : Datum → Checked α} {a? : Option α}
    (h : Checked.optional read d = ok a?) (hthere : d.isAbsent = false) :
    (read d).isClean = true := by
  rcases optional_eq_ok.mp h with ⟨habsent, -⟩ | ⟨-, a, ha, -⟩
  · rw [habsent] at hthere
    cases hthere
  · exact isClean_of_eq_ok ha

theorem accepts_of_sequence {α : Type} {read : Datum → Checked α} {part : Part} {as : List α}
    (hpart : ∀ x, part.accepts x = (read x).isClean) (h : sequence read d = ok as) :
    (Part.listOf part).accepts d = true := by
  obtain ⟨ds, rfl, hds⟩ := sequence_eq_ok.mp h
  refine List.all_eq_true.mpr fun x hx ↦ ?_
  have hread : read x ∈ as.map ok := hds ▸ List.mem_map_of_mem hx
  obtain ⟨a, -, ha⟩ := List.mem_map.mp hread
  rw [hpart]
  exact isClean_of_eq_ok ha.symm

/-! ### Conditions -/

/-- No form of conditions can take the key that another one cannot do without. -/
theorem conditionForms_unique : ∀ form ∈ conditionForms, ∀ other ∈ conditionForms,
    form.1 ∈ other.2 → form = other := by decide

/-- A condition that was read has a form: the key that this cannot do without, and no other keys
than its own. -/
theorem condition_form {c : Condition} (h : condition d = ok c) : ∃ form ∈ conditionForms,
    form.1 ∈ d.listed.map Prod.fst ∧ ∀ key ∈ d.listed.map Prod.fst, key ∈ form.2 := by
  have hlist : ∀ {key : Text} {cs : List Condition},
      conditionList d key (sequence condition (d.member key)) = ok cs →
      key ∈ d.listed.map Prod.fst ∧ ∀ name ∈ d.listed.map Prod.fst, name ∈ [key] := by
    intro key cs hcs
    obtain ⟨-, hknown, hread, -⟩ := conditionList_eq_ok.mp hcs
    obtain ⟨items, hitems, -⟩ := sequence_eq_ok.mp hread
    exact ⟨Datum.mem_listed_of_member (by rw [hitems]; rfl), hknown⟩
  rcases condition_cases h with ⟨compared, hcompared, -⟩ | ⟨cs, hcs, -⟩ | ⟨cs, hcs, -⟩ |
    ⟨inner, hinner, -⟩
  · have habsent : (d.member "operator").isAbsent = false := by
      cases hoperator : d.member "operator" with
      | absent => exact absurd (isClean_of_eq_ok hcompared) (by simp [comparison_isClean hoperator])
      | _ => rfl
    obtain ⟨hform, -⟩ := requireRight_eq_ok.mp hcompared
    obtain ⟨-, hknown, -⟩ := form_eq_ok.mp hform
    exact ⟨_, .head _, Datum.mem_listed_of_member habsent, hknown⟩
  · exact ⟨_, .tail _ (.head _), hlist hcs⟩
  · exact ⟨_, .tail _ (.tail _ (.head _)), hlist hcs⟩
  · obtain ⟨-, hknown, hread⟩ := form_eq_ok.mp hinner
    have habsent : (d.member "not").isAbsent = false := by
      cases hnot : d.member "not" with
      | absent =>
        rw [field_eq_ok, hnot, condition_absent] at hread
        exact absurd hread (refused_ne_ok _ inner)
      | _ => rfl
    exact ⟨_, .tail _ (.tail _ (.tail _ (.head _))), Datum.mem_listed_of_member habsent, hknown⟩

theorem keys_condition {form : Text × List Text} (hform : form ∈ conditionForms)
    (hhas : form.1 ∈ d.listed.map Prod.fst)
    (hknown : ∀ key ∈ d.listed.map Prod.fst, key ∈ form.2) : Part.condition.keys d = form.2 := by
  rw [Part.keys]
  cases hfound : conditionForms.find? fun form ↦ decide (form.1 ∈ d.listed.map Prod.fst) with
  | none => exact absurd (decide_eq_true hhas) (List.find?_eq_none.mp hfound form hform)
  | some other =>
    have hother : other.1 ∈ d.listed.map Prod.fst := by simpa using List.find?_some hfound
    rw [conditionForms_unique other (List.mem_of_find?_eq_some hfound) form hform
      (hknown _ hother)]
    rfl

/-- A condition that was read has accepted parts. -/
theorem accepts_of_condition {below : Part} {key : Text} {c : Condition} (h : condition d = ok c)
    (hmember : (key, below) ∈ conditionMembers) (hthere : (d.member key).isAbsent = false) :
    below.accepts (d.member key) = true := by
  have hlisted := Datum.mem_listed_of_member hthere
  have hcomparison : ∀ member ∈ conditionMembers,
      member.1 ∉ (["operator", "left", "right"] : List Text) := by decide
  have hlists : ∀ member ∈ conditionMembers, member.1 ≠ "not" →
      member.2 = .listOf .condition := by decide
  have hnegation : ∀ member ∈ conditionMembers, member.1 = "not" → member.2 = .condition := by
    decide
  have hlist : ∀ {name : Text} {cs : List Condition}, name ≠ "not" →
      conditionList d name (sequence condition (d.member name)) = ok cs →
      below.accepts (d.member key) = true := by
    intro name cs hname hcs
    obtain ⟨-, hknown, hread, -⟩ := conditionList_eq_ok.mp hcs
    obtain rfl := List.mem_singleton.mp (hknown key hlisted)
    obtain rfl : below = .listOf .condition := hlists _ hmember hname
    exact accepts_of_sequence (fun _ ↦ rfl) hread
  rcases condition_cases h with ⟨compared, hcompared, -⟩ | ⟨cs, hcs, -⟩ | ⟨cs, hcs, -⟩ |
    ⟨inner, hinner, -⟩
  · obtain ⟨hform, -⟩ := requireRight_eq_ok.mp hcompared
    obtain ⟨-, hknown, -⟩ := form_eq_ok.mp hform
    exact absurd (hknown key hlisted) (hcomparison _ hmember)
  · exact hlist (by decide) hcs
  · exact hlist (by decide) hcs
  · obtain ⟨-, hknown, hread⟩ := form_eq_ok.mp hinner
    obtain rfl := List.mem_singleton.mp (hknown key hlisted)
    obtain rfl : below = .condition := hnegation _ hmember rfl
    exact isClean_of_eq_ok (field_eq_ok.mp hread)

/-! ### Steps and workflows -/

theorem actionMembers_of_form {kind : ActionKind} {form : ActionForm}
    (h : actionForm? kind = some form) : actionMembers kind = [] := by
  cases kind with
  | branch | loop => simp [actionForm?] at h
  | _ => rfl

/-- A step that was read has accepted parts. -/
theorem accepts_of_step {below : Part} {key : Text} {s : Step} (h : step d = ok s)
    (hmember : (key, below) ∈ Part.step.members d) (hthere : (d.member key).isAbsent = false) :
    below.accepts (d.member key) = true := by
  have hparts := step_parts h
  rcases List.mem_cons.mp hmember with hcondition | hmember
  · obtain ⟨rfl, rfl⟩ := Prod.mk.inj hcondition
    exact isClean_of_optional (header_parts hparts.header).1 hthere
  rcases List.mem_cons.mp hmember with hretry | hmember
  · obtain ⟨rfl, rfl⟩ := Prod.mk.inj hretry
    exact isClean_of_optional (header_parts hparts.header).2 hthere
  cases hparts with
  | act hkind hform => simp [hkind, actionMembers_of_form hform] at hmember
  | branch hkind _ _ hcondition hsteps _ hotherwise =>
    simp only [hkind, Option.map_some, Option.getD_some, actionMembers, List.mem_cons,
      Prod.mk.injEq, List.not_mem_nil, or_false] at hmember
    rcases hmember with ⟨rfl, rfl⟩ | ⟨rfl, rfl⟩ | ⟨rfl, rfl⟩
    · exact isClean_of_eq_ok hcondition
    · exact accepts_of_sequence (fun _ ↦ rfl) hsteps
    · rcases optional_eq_ok.mp hotherwise with ⟨habsent, -⟩ | ⟨-, steps, hsteps, -⟩
      · rw [habsent] at hthere
        cases hthere
      · exact accepts_of_sequence (fun _ ↦ rfl) hsteps
  | loop hkind _ _ hspec hsteps =>
    simp only [hkind, Option.map_some, Option.getD_some, actionMembers, List.mem_cons,
      Prod.mk.injEq, List.not_mem_nil, or_false] at hmember
    rcases hmember with ⟨rfl, rfl⟩ | ⟨rfl, rfl⟩
    · exact isClean_of_eq_ok hspec
    · exact accepts_of_sequence (fun _ ↦ rfl) hsteps

/-! ### Parts -/

namespace Part

variable {part below : Part} {own inherited before after : Entries Datum} {key : Text} {x : Datum}

/-- An accepted object has no other keys than those of its form. -/
theorem keys_of_accepts (h : part.accepts (.object own inherited) = true) :
    ∀ key ∈ (Datum.object own inherited).listed.map Prod.fst,
      key ∈ part.keys (.object own inherited) := by
  cases part with
  | workflow =>
    obtain ⟨w, hw⟩ := (isClean_iff _).mp h
    exact (workflow_parts hw).1
  | step =>
    obtain ⟨s, hs⟩ := (isClean_iff _).mp h
    cases step_parts hs with
    | act hkind hform hknown => simpa [keys, hkind, actionKeys, hform] using hknown
    | branch hkind hknown => simpa [keys, hkind, actionKeys, actionForm?] using hknown
    | loop hkind hknown => simpa [keys, hkind, actionKeys, actionForm?] using hknown
  | condition =>
    obtain ⟨c, hc⟩ := (isClean_iff _).mp h
    obtain ⟨form, hform, hhas, hknown⟩ := condition_form hc
    rwa [keys_condition hform hhas hknown]
  | loop =>
    obtain ⟨spec, hspec⟩ := (isClean_iff _).mp h
    cases iteration_parts hspec with
    | whileHolds htype hknown | range htype hknown | forEach htype hknown | times htype hknown =>
      rw [keys, htype]
      exact hknown
  | retry =>
    obtain ⟨plan, hplan⟩ := (isClean_iff _).mp h
    exact (form_eq_ok.mp hplan).2.1
  | listOf part => cases h

/-- An accepted object has accepted parts. -/
theorem accepts_member {d : Datum} (h : part.accepts d = true)
    (hmember : (key, below) ∈ part.members d) (hthere : (d.member key).isAbsent = false) :
    below.accepts (d.member key) = true := by
  cases part with
  | workflow =>
    obtain ⟨w, hw⟩ := (isClean_iff _).mp h
    obtain ⟨rfl, rfl⟩ := Prod.mk.inj (List.mem_singleton.mp hmember)
    exact accepts_of_sequence (fun _ ↦ rfl) (workflow_parts hw).2
  | step =>
    obtain ⟨s, hs⟩ := (isClean_iff _).mp h
    exact accepts_of_step hs hmember hthere
  | condition =>
    obtain ⟨c, hc⟩ := (isClean_iff _).mp h
    exact accepts_of_condition hc hmember hthere
  | loop =>
    obtain ⟨spec, hspec⟩ := (isClean_iff _).mp h
    obtain ⟨rfl, rfl⟩ := Prod.mk.inj (List.mem_singleton.mp hmember)
    cases iteration_parts hspec with
    | whileHolds _ _ hcondition => exact isClean_of_eq_ok hcondition
    | range _ hknown | forEach _ hknown | times _ hknown =>
      exact absurd (hknown _ (Datum.mem_listed_of_member hthere)) (by decide)
  | retry | listOf => cases hmember

theorem Widens.isAbsent {d d' : Datum} (h : part.Widens d d') :
    d.isAbsent = false ∧ d'.isAbsent = false := by
  cases h with
  | here | item => exact ⟨rfl, rfl⟩
  | member =>
    refine ⟨rfl, ?_⟩
    rw [Datum.setMember]
    split <;> rfl

/-- An object has the same parts when one of them is changed. -/
theorem members_setMember {d : Datum} (x : Datum) (hmember : (key, below) ∈ part.members d) :
    part.members (d.setMember key x) = part.members d := by
  cases part with
  | workflow | condition | loop | retry | listOf => rfl
  | step =>
    have hactions : ∀ kind, ∀ member ∈ actionMembers kind, member.1 ≠ "action" := by
      intro kind
      cases kind <;> decide
    have hkey : key ≠ "action" := by
      rcases List.mem_cons.mp hmember with hcondition | hmember
      · rw [(Prod.mk.inj hcondition).1]
        decide
      rcases List.mem_cons.mp hmember with hretry | hmember
      · rw [(Prod.mk.inj hretry).1]
        decide
      cases hkind : formOf? kinds (d.member "action") with
      | none => simp [hkind] at hmember
      | some kind =>
        rw [hkind] at hmember
        exact hactions kind _ hmember
    rw [members, members, Datum.member_setMember_of_ne d x hkey]

/-- An accepted object that stays accepted with another key keeps its form, if this does not take
the key. -/
theorem keys_added (h : part.accepts (.object (before ++ after) inherited) = true)
    (hadded : part.accepts (.object (before ++ (key, x) :: after) inherited) = true)
    (hforeign : key ∉ part.keys (.object (before ++ after) inherited)) :
    part.keys (.object (before ++ (key, x) :: after) inherited) =
      part.keys (.object (before ++ after) inherited) := by
  cases part with
  | workflow | retry | listOf => rfl
  | step =>
    obtain ⟨s, hs⟩ := (isClean_iff _).mp h
    obtain ⟨-, kind, hkind⟩ := kind_of_step hs
    have haction : ∀ kind, ("action" : Text) ∈ actionKeys kind := by
      intro kind
      cases kind <;> decide
    have hkey : key ≠ "action" := by
      rintro rfl
      exact hforeign (by simpa [keys, hkind] using haction kind)
    rw [keys, keys, Datum.member_added hkey]
  | condition =>
    obtain ⟨c, hc⟩ := (isClean_iff _).mp h
    obtain ⟨other, hother⟩ := (isClean_iff _).mp hadded
    obtain ⟨form, hform, hhas, hknown⟩ := condition_form hc
    obtain ⟨form', hform', hhas', hknown'⟩ := condition_form hother
    rw [keys_condition hform hhas hknown, keys_condition hform' hhas' hknown',
      conditionForms_unique form hform form' hform' (hknown' _ (Datum.mem_listed_added hhas))]
  | loop =>
    obtain ⟨spec, hspec⟩ := (isClean_iff _).mp h
    have hkey : key ≠ "type" := by
      rintro rfl
      apply hforeign
      cases iteration_parts hspec with
      | whileHolds htype | range htype | forEach htype | times htype =>
        rw [keys, htype]
        decide
    rw [keys, keys, Datum.member_added hkey]

/-- A key that the form of an accepted object does not take makes it one that is not accepted. -/
theorem accepts_added (h : part.accepts (.object (before ++ after) inherited) = true)
    (hforeign : key ∉ part.keys (.object (before ++ after) inherited)) :
    part.accepts (.object (before ++ (key, x) :: after) inherited) = false := by
  rw [← Bool.not_eq_true]
  intro hadded
  have hkey := keys_of_accepts hadded key
    (Datum.mem_listed_object.mpr (.inl (by simp [Entries.keys])))
  rw [keys_added h hadded hforeign] at hkey
  exact hforeign hkey

/-- A part that is accepted is not accepted any more when one of its objects gets another key. -/
theorem Widens.refused {d d' : Datum} (hwidens : part.Widens d d') (h : part.accepts d = true) :
    part.accepts d' = false := by
  induction hwidens with
  | here hforeign => exact accepts_added h hforeign
  | @member part below own inherited key x hmember hwidens ih =>
    obtain ⟨hold, hnew⟩ := hwidens.isAbsent
    have hrefused := ih (accepts_member h hmember hold)
    have hx := Datum.member_setMember (x := x) hold
    rw [← Bool.not_eq_true]
    intro haccepted
    have hbelow := accepts_member haccepted (members_setMember x hmember ▸ hmember)
      (by rw [hx]; exact hnew)
    rw [hx, hrefused] at hbelow
    cases hbelow
  | @item part items index old x hitem _ ih =>
    have hold := List.all_eq_true.mp h old (List.mem_of_getElem? hitem)
    rw [← Bool.not_eq_true]
    intro haccepted
    have hnew := List.all_eq_true.mp haccepted x
      (List.mem_set (List.getElem?_eq_some_iff.mp hitem).1 x)
    rw [ih hold] at hnew
    cases hnew

end Part

/-! ### Documents -/

/-- A document that is accepted is not accepted any more when one of its objects, at any depth, gets
another key, which the form of the object does not take. -/
theorem workflow_strict {d d' : Datum} (haccepted : (workflow d).isClean = true)
    (hwidens : Part.workflow.Widens d d') : (workflow d').isClean = false :=
  hwidens.refused haccepted

/-- A comparison with some more entries. -/
def compared (more : Entries Datum) : Datum :=
  .object (([("left", .text "\x7b\x7b n \x7d\x7d"), ("operator", .text "equals"),
    ("right", .number 1)] : Entries Datum) ++ more) []

/-- A condition with another one among those that all have to hold, behind a negation. -/
def nested (condition : Datum) : Datum :=
  .object [("all", .sequence [.object [("not", condition)] []])] []

/-- A loop that goes on as long as a condition holds. -/
def watching (condition : Datum) : Datum :=
  .object [("name", .text "again"), ("action", .text "loop"),
    ("value", .object [("type", .text "while"), ("condition", condition)] []),
    ("steps", .sequence [
      .object [("name", .text "go"), ("action", .text "click"), ("selector", .text "#a")] []])] []

/-- A document with a loop. -/
def watchingLoop (condition : Datum) : Datum :=
  .object [("name", .text "watch"), ("version", .text "1"),
    ("steps", .sequence [watching condition])] []

theorem widens_nested {c c' : Datum} (h : Part.condition.Widens c c') :
    Part.condition.Widens (nested c) (nested c') := by
  have hnot : Part.condition.Widens (.object [("not", c)] []) (.object [("not", c')] []) :=
    @Part.Widens.member .condition .condition _ _ "not" _ (.tail _ (.tail _ (.head _))) h
  exact @Part.Widens.member .condition (.listOf .condition) _ _ "all" _ (.head _)
    (@Part.Widens.item .condition [_] 0 _ _ rfl hnot)

theorem widens_watchingLoop {c c' : Datum} (h : Part.condition.Widens c c') :
    Part.workflow.Widens (watchingLoop c) (watchingLoop c') := by
  have hloop : Part.loop.Widens (.object [("type", .text "while"), ("condition", c)] [])
      (.object [("type", .text "while"), ("condition", c')] []) :=
    @Part.Widens.member .loop .condition _ _ "condition" _ (.head _) h
  have hstep : Part.step.Widens (watching c) (watching c') :=
    @Part.Widens.member .step .loop _ _ "value" _ (.tail _ (.tail _ (.head _))) hloop
  exact @Part.Widens.member .workflow (.listOf .step) _ _ "steps" _ (.head _)
    (@Part.Widens.item .step [_] 0 _ _ rfl hstep)

/-- A comparison that is also a list of conditions is none of both, wherever it stands. -/
theorem workflow_strict_watchingLoop :
    (workflow (watchingLoop (nested (compared [])))).isClean = true ∧
      Part.workflow.Widens (watchingLoop (nested (compared [])))
        (watchingLoop (nested (compared [("all", .sequence [])]))) ∧
      (workflow (watchingLoop (nested (compared [("all", .sequence [])])))).isClean = false := by
  have haccepted : (workflow (watchingLoop (nested (compared [])))).isClean = true := by
    decide +kernel
  have hcompared : Part.condition.Widens (compared []) (compared [("all", .sequence [])]) :=
    .here (by decide +kernel)
  have hwidens := widens_watchingLoop (widens_nested hcompared)
  exact ⟨haccepted, hwidens, workflow_strict haccepted hwidens⟩

end Document

end BrowserFlow
