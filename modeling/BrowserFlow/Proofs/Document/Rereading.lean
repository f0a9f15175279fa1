import BrowserFlow.Proofs.Document.Parts
import BrowserFlow.Proofs.Document.Written

/-!
Reading again what was read: scalars, conditions, loops and actions. What a way
of reading gives without issues is read again, without issues and as the same,
from the datum of its written form. Trimmed texts are left alone, a number that
became a version is a text without white space, and a relation is found under
its name whatever sign it was read from. Of several alternatives the same one is
taken again, because the earlier ones have issues with what is written: a list
of conditions has no operator. Conditions nest, and reading them again is by
induction on the size of the datum (`condition_again`). An action is read again
from any object with its members (`ReadsAgain`), of which those that every step
has are not part.
-/

set_option autoImplicit false
set_option relaxedAutoImplicit false

namespace BrowserFlow.Document

open Checked

variable {d : Datum}

/-! ### Scalars -/

theorem text_again {trimmed nonempty : Bool} {t : Text} (h : text trimmed nonempty d = ok t) :
    text trimmed nonempty (Datum.ofValue (.text t)) = ok t := by
  obtain ⟨source, -, rfl, hnonempty⟩ := text_eq_ok.mp h
  refine text_eq_ok.mpr ⟨_, rfl, ?_, hnonempty⟩
  cases trimmed with
  | true => exact source.trim_trim
  | false => rfl

theorem number_again {d : Datum} {x : Number} (h : number d = ok x) :
    number (Datum.ofValue (.number x)) = ok x := number_eq_ok.mpr ⟨rfl, (number_eq_ok.mp h).2⟩

theorem value_again {d : Datum} {v : Value} (h : value d = ok v) :
    value (Datum.ofValue v) = ok v := value_eq_ok.mpr (value?_again d (value_eq_ok.mp h))

theorem optionalValue_again {d : Datum} {slot : Option Value} (h : optional value d = ok slot) :
    optional value (Datum.ofSlot slot) = ok slot := by
  have hagain := optional_again (fun _ ↦ value_again) h
  rwa [Option.map_id'] at hagain

theorem bool_again (b : Bool) : bool (Datum.ofValue (.bool b)) = ok b := rfl

/-- The name of a relation is no sign and no inherited name. -/
theorem relation_again (r : Relation) : relation (Datum.ofValue (.text r.name)) = ok r := by
  have hnames : ∀ r ∈ Relation.all, Entries.find? signs r.name = none ∧
      Entries.find? inheritedNames r.name = none ∧ Entries.find? relations r.name = some r := by
    decide +kernel
  have hall : r ∈ Relation.all := by cases r <;> decide
  obtain ⟨hsign, hinherited, hname⟩ := hnames r hall
  simp only [Datum.ofValue, relation, hsign, hinherited, word, hname]

theorem policy_again (p : Recovery) : word policies (Datum.ofValue (.text p.name)) = ok p := by
  cases p <;> rfl

/-! ### Alternatives -/

theorem amount_again {d : Datum} {a : Amount} (h : amount d = ok a) :
    amount (Datum.ofValue a.toValue) = ok a := by
  rcases firstOf_cons_eq_ok.mp h with hfound | ⟨-, h⟩
  · obtain ⟨x, hx, rfl⟩ := map_eq_ok.mp hfound
    exact firstOf_of_head _ (map_ok _ (number_again hx))
  rcases firstOf_cons_eq_ok.mp h with hfound | ⟨-, h⟩
  · obtain ⟨t, ht, rfl⟩ := map_eq_ok.mp hfound
    exact firstOf_of_tail rfl (firstOf_of_head _ (map_ok _ (text_again ht)))
  · exact absurd h (firstOf_nil_ne_ok a)

theorem typed_again {d : Datum} {input : Typed} (h : typed d = ok input) :
    typed (Datum.ofValue input.toValue) = ok input := by
  rcases firstOf_cons_eq_ok.mp h with hfound | ⟨-, h⟩
  · obtain ⟨t, ht, rfl⟩ := map_eq_ok.mp hfound
    exact firstOf_of_head _ (map_ok _ (text_again ht))
  rcases firstOf_cons_eq_ok.mp h with hfound | ⟨-, h⟩
  · obtain ⟨x, hx, rfl⟩ := map_eq_ok.mp hfound
    exact firstOf_of_tail rfl (firstOf_of_head _ (map_ok _ (number_again hx)))
  rcases firstOf_cons_eq_ok.mp h with hfound | ⟨-, h⟩
  · obtain ⟨b, -, rfl⟩ := map_eq_ok.mp hfound
    exact firstOf_of_tail rfl (firstOf_of_tail rfl (firstOf_of_head _ (map_ok _ (bool_again b))))
  · exact absurd h (firstOf_nil_ne_ok input)

theorem uploads_again {d : Datum} {files : Uploads} (h : uploads d = ok files) :
    uploads (Datum.ofValue files.toValue) = ok files := by
  rcases firstOf_cons_eq_ok.mp h with hfound | ⟨-, h⟩
  · obtain ⟨path, hpath, rfl⟩ := map_eq_ok.mp hfound
    exact firstOf_of_head _ (map_ok _ (text_again hpath))
  rcases firstOf_cons_eq_ok.mp h with hfound | ⟨-, h⟩
  · obtain ⟨paths, hpaths, rfl⟩ := map_eq_ok.mp hfound
    obtain ⟨hread, hnonempty⟩ := nonempty_eq_ok.mp hpaths
    have hagain := sequence_again (fun _ _ _ _ _ ↦ text_again) hread
    exact firstOf_of_tail rfl
      (firstOf_of_head _ (map_ok _ (nonempty_eq_ok.mpr ⟨hagain, hnonempty⟩)))
  · exact absurd h (firstOf_nil_ne_ok files)

theorem loopItems_again {d : Datum} {items : Value} (h : loopItems d = ok items) :
    loopItems (Datum.ofValue items) = ok items := by
  rcases firstOf_cons_eq_ok.mp h with hfound | ⟨-, h⟩
  · obtain ⟨t, ht, rfl⟩ := map_eq_ok.mp hfound
    exact firstOf_of_head _ (map_ok _ (text_again ht))
  rcases firstOf_cons_eq_ok.mp h with hfound | ⟨-, h⟩
  · obtain ⟨vs, hvs, rfl⟩ := map_eq_ok.mp hfound
    have hagain := sequence_again (fun _ _ _ _ _ ↦ value_again) hvs
    rw [List.map_id'] at hagain
    exact firstOf_of_tail rfl (firstOf_of_head _ (map_ok _ hagain))
  · exact absurd h (firstOf_nil_ne_ok items)

theorem version_again {d : Datum} {t : Text} (h : version d = ok t) :
    version (Datum.ofValue (.text t)) = ok t := by
  rcases firstOf_cons_eq_ok.mp h with hfound | ⟨-, h⟩
  · exact firstOf_of_head _ (text_again hfound)
  rcases firstOf_cons_eq_ok.mp h with hfound | ⟨-, h⟩
  · obtain ⟨x, -, rfl⟩ := map_eq_ok.mp hfound
    refine firstOf_of_head _ (text_eq_ok.mpr ⟨x.toText, rfl, x.toText_inked.trim, ?_⟩)
    rw [x.toText_isEmpty]
    rfl
  · exact absurd h (firstOf_nil_ne_ok t)

/-! ### Forms -/

theorem positiveInteger_again {d : Datum} {x : Number} (h : positiveInteger d = ok x) :
    positiveInteger (Datum.ofValue (.number x)) = ok x := by
  simp only [positiveInteger, require_eq_ok] at h ⊢
  exact ⟨⟨number_again h.1.1, h.1.2⟩, h.2⟩

theorem timeout_again {d : Datum} {x : Number} (h : timeout d = ok x) :
    timeout (Datum.ofValue (.number x)) = ok x := by
  simp only [timeout, require_eq_ok] at h ⊢
  exact ⟨⟨number_again h.1.1, h.1.2⟩, h.2⟩

theorem retryPlan_again {d : Datum} {plan : RetryPlan} (h : retryPlan d = ok plan) :
    retryPlan (Datum.ofValue plan.toValue) = ok plan := by
  simp only [retryPlan, form_eq_ok, seq_eq_ok, map_eq_ok, field_eq_ok, require_eq_ok] at h
  obtain ⟨-, -, _, delay, ⟨most, ⟨⟨hmost, hinteger⟩, hone⟩, rfl⟩, ⟨⟨hdelay, hleast⟩, hlongest⟩,
    rfl⟩ := h
  have horder : Entries.KeysInOrder ["max_attempts", "delay_seconds"] := by decide
  refine form_written (by rfl) horder (seq_ok (map_ok _ ?_) ?_)
  · refine field_written (by rfl) horder (.head _) ?_
    simp only [require_eq_ok]
    exact ⟨⟨number_again hmost, hinteger⟩, hone⟩
  · refine field_written (by rfl) horder (.tail _ (.head _)) ?_
    simp only [require_eq_ok]
    exact ⟨⟨number_again hdelay, hleast⟩, hlongest⟩

theorem comparison_again {d : Datum} {c : Comparison} (h : comparison d = ok c) :
    comparison (Datum.ofValue c.toValue) = ok c := by
  simp only [comparison, requireRight_eq_ok, form_eq_ok, seq_eq_ok, map_eq_ok, field_eq_ok] at h
  obtain ⟨⟨-, -, _, right, ⟨_, left, ⟨r, hr, rfl⟩, hleft, rfl⟩, hright, rfl⟩, hoperands⟩ := h
  have horder : Entries.KeysInOrder ["operator", "left", "right"] := by decide
  refine requireRight_eq_ok.mpr ⟨form_written (by rfl) horder ?_, hoperands⟩
  refine seq_ok (seq_ok (map_ok _ ?_) ?_) ?_
  · exact field_written (by rfl) horder (.head _) (relation_again r)
  · exact field_written (by rfl) horder (.tail _ (.head _)) (value_again hleft)
  · exact field_written (by rfl) horder (.tail _ (.tail _ (.head _))) (optionalValue_again hright)

/-! ### Conditions -/

theorem toValues_eq_map (cs : List Condition) :
    Condition.toValues cs = cs.map Condition.toValue := by
  induction cs with
  | nil => rfl
  | cons c rest ih => rw [Condition.toValues, ih, List.map_cons]

theorem conditionList_again {key : Text} {cs : List Condition}
    (hread : ∀ ds, d.member key = .sequence ds → ∀ x ∈ ds, ∀ c, condition x = ok c →
      condition (Datum.ofValue c.toValue) = ok c)
    (horder : Entries.KeysInOrder [key])
    (h : conditionList d key (sequence condition (d.member key)) = ok cs) {e : Datum}
    (he : e = Datum.ofValue (.ofFields [(key, some (.sequence (Condition.toValues cs)))])) :
    conditionList e key (sequence condition (e.member key)) = ok cs := by
  obtain ⟨-, -, hparts, hne⟩ := conditionList_eq_ok.mp h
  have hmember : e.member key = Datum.ofValue (.sequence (cs.map Condition.toValue)) := by
    rw [he, ← toValues_eq_map]
    exact Datum.member_ofFields (by rfl) horder (.head _)
  rw [conditionList, hmember, nonempty_eq_ok.mpr ⟨sequence_again hread hparts, hne⟩, he]
  exact form_written (by rfl) horder rfl

/-- A condition that was read is read from its own datum again. -/
theorem condition_again (d : Datum) {c : Condition} (h : condition d = ok c) :
    condition (Datum.ofValue c.toValue) = ok c := by
  have hitem : ∀ key ds, d.member key = .sequence ds → ∀ x ∈ ds, ∀ c, condition x = ok c →
      condition (Datum.ofValue c.toValue) = ok c := fun key ds hds x hx c hc ↦
    have : sizeOf x < sizeOf d := Datum.sizeOf_item_lt hds hx
    condition_again x hc
  rw [condition_eq]
  rcases condition_cases h with ⟨compared, hcompared, rfl⟩ | ⟨cs, hcs, rfl⟩ | ⟨cs, hcs, rfl⟩ |
    ⟨inner, hinner, rfl⟩
  · exact firstOf_of_head _ (map_ok _ (comparison_again hcompared))
  · refine firstOf_of_tail ((isClean_map _ _).trans (comparison_isClean rfl))
      (firstOf_of_head _ (map_ok _ ?_))
    exact conditionList_again (hitem "all") (by decide) hcs rfl
  · refine firstOf_of_tail ((isClean_map _ _).trans (comparison_isClean rfl))
      (firstOf_of_tail ((isClean_map _ _).trans (conditionList_isClean rfl))
        (firstOf_of_head _ (map_ok _ ?_)))
    exact conditionList_again (hitem "any") (by decide) hcs rfl
  · obtain ⟨-, -, hfield⟩ := form_eq_ok.mp hinner
    rw [field_eq_ok] at hfield
    have hpresent : d.member "not" ≠ .absent := by
      intro habsent
      rw [habsent, condition_absent] at hfield
      exact refused_ne_ok _ inner hfield
    have : sizeOf (d.member "not") < sizeOf d := Datum.sizeOf_member_lt hpresent
    have hagain := condition_again (d.member "not") hfield
    refine firstOf_of_tail ((isClean_map _ _).trans (comparison_isClean rfl))
      (firstOf_of_tail ((isClean_map _ _).trans (conditionList_isClean rfl))
        (firstOf_of_tail ((isClean_map _ _).trans (conditionList_isClean rfl))
          (firstOf_of_head _ (map_ok _ ?_))))
    have horder : Entries.KeysInOrder ["not"] := by decide
    have hwritten : Condition.toValue (.not inner) =
        .ofFields [("not", some inner.toValue)] := rfl
    rw [hwritten]
    exact form_written (by rfl) horder (field_written (by rfl) horder (.head _) hagain)
termination_by sizeOf d

/-! ### Loops -/

/-- A loop that was written is read in the form that it names. -/
theorem iteration_written {fields : List (Text × Option Value)} {keys : List Text}
    (hkeys : fields.map Prod.fst = keys) (h : Entries.KeysInOrder keys) {name : Text}
    (hname : (("type" : Text), some (Value.text name)) ∈ fields) {read : Datum → Checked Iteration}
    (hread : Entries.find? loopForms name = some read) :
    iteration (Datum.ofValue (.ofFields fields)) = read (Datum.ofValue (.ofFields fields)) := by
  have hform :
      formOf? loopForms ((Datum.ofValue (.ofFields fields)).member "type") = some read := by
    rw [Datum.member_ofFields hkeys h hname]
    exact hread
  have hobject : (Datum.ofValue (.ofFields fields)).isObject = true := rfl
  rw [iteration, if_pos hobject]
  simp only [hform]

theorem whileHolds_again {condition : Condition} {limit : Option Number}
    (hcondition : Document.condition (d.member "condition") = ok condition)
    (hlimit : optional positiveInteger (d.member "max_iterations") = ok limit) :
    iteration (Datum.ofValue (Iteration.whileHolds condition limit).toValue) =
      ok (.whileHolds condition limit) := by
  have horder : Entries.KeysInOrder ["type", "condition", "max_iterations"] := by decide
  refine Eq.trans (iteration_written (by rfl) horder (.head _) rfl) ?_
  refine form_written (by rfl) horder ?_
  refine seq_ok (map_ok _ ?_) ?_
  · exact field_written (by rfl) horder (.tail _ (.head _))
      (condition_again _ hcondition)
  · exact field_written (by rfl) horder (.tail _ (.tail _ (.head _)))
      (optional_again (fun _ ↦ positiveInteger_again) hlimit)

theorem range_again {counter : Text} {start stop : Amount} {step : Option Amount}
    (hcounter : someText (d.member "variable") = ok counter)
    (hstart : amount (d.member "start") = ok start) (hstop : amount (d.member "end") = ok stop)
    (hstep : optional amount (d.member "step") = ok step) :
    iteration (Datum.ofValue (Iteration.range counter start stop step).toValue) =
      ok (.range counter start stop step) := by
  have horder : Entries.KeysInOrder ["type", "variable", "start", "end", "step"] := by decide
  refine Eq.trans (iteration_written (by rfl) horder (.head _) rfl) ?_
  refine form_written (by rfl) horder ?_
  refine seq_ok (seq_ok (seq_ok (map_ok _ ?_) ?_) ?_) ?_
  · exact field_written (by rfl) horder (.tail _ (.head _)) (text_again hcounter)
  · exact field_written (by rfl) horder (.tail _ (.tail _ (.head _)))
      (amount_again hstart)
  · exact field_written (by rfl) horder (.tail _ (.tail _ (.tail _ (.head _))))
      (amount_again hstop)
  · exact field_written (by rfl) horder (.tail _ (.tail _ (.tail _ (.tail _ (.head _)))))
      (optional_again (fun _ ↦ amount_again) hstep)

theorem forEach_again {counter : Text} {source : Value}
    (hcounter : someText (d.member "variable") = ok counter)
    (hsource : loopItems (d.member "items") = ok source) :
    iteration (Datum.ofValue (Iteration.forEach counter source).toValue) =
      ok (.forEach counter source) := by
  have horder : Entries.KeysInOrder ["type", "variable", "items"] := by decide
  refine Eq.trans (iteration_written (by rfl) horder (.head _) rfl) ?_
  refine form_written (by rfl) horder ?_
  refine seq_ok (map_ok _ ?_) ?_
  · exact field_written (by rfl) horder (.tail _ (.head _)) (text_again hcounter)
  · exact field_written (by rfl) horder (.tail _ (.tail _ (.head _)))
      (loopItems_again hsource)

theorem times_again {count : Amount} {counter : Option Text}
    (hcount : amount (d.member "times") = ok count)
    (hcounter : optional someText (d.member "variable") = ok counter) :
    iteration (Datum.ofValue (Iteration.times count counter).toValue) =
      ok (.times count counter) := by
  have horder : Entries.KeysInOrder ["type", "times", "variable"] := by decide
  refine Eq.trans (iteration_written (by rfl) horder (.head _) rfl) ?_
  refine form_written (by rfl) horder ?_
  refine seq_ok (map_ok _ ?_) ?_
  · exact field_written (by rfl) horder (.tail _ (.head _))
      (amount_again hcount)
  · exact field_written (by rfl) horder (.tail _ (.tail _ (.head _)))
      (optional_again (fun _ ↦ text_again) hcounter)

/-- A loop that was read is read from its own datum again. -/
theorem iteration_again {spec : Iteration} (h : iteration d = ok spec) :
    iteration (Datum.ofValue spec.toValue) = ok spec := by
  cases iteration_parts h with
  | whileHolds _ _ hcondition hlimit => exact whileHolds_again hcondition hlimit
  | range _ _ hcounter hstart hstop hpace => exact range_again hcounter hstart hstop hpace
  | forEach _ _ hcounter hsource => exact forEach_again hcounter hsource
  | times _ _ hcount hcounter => exact times_again hcount hcounter

/-! ### Actions -/

/-- What was read in the form of an action has the kind of the form and its keys, and is read again
from any object with its members. -/
def ReadsAgain (form : ActionForm) (kind : ActionKind) : Prop :=
  ∀ d action, form.read d = ok action →
    action.kind = kind ∧ action.members.map Prod.fst = form.keys ∧
      ∀ e : Datum, (∀ entry ∈ action.members, e.member entry.1 = Datum.ofSlot entry.2) →
        form.read e = ok action

theorem readsAgain_one {β : Type} {key : Text} {kind : ActionKind} {make : β → Action}
    {write : β → Option Value} {read : Datum → Checked β} (hkind : ∀ b, (make b).kind = kind)
    (hmembers : ∀ b, (make b).members = [(key, write b)])
    (hread : ∀ d b, read d = ok b → read (Datum.ofSlot (write b)) = ok b) :
    ReadsAgain ⟨[key], fun d ↦ make <$> field d key read⟩ kind := by
  intro d action h
  obtain ⟨b, hb, rfl⟩ := map_eq_ok.mp h
  rw [hmembers b]
  refine ⟨hkind b, rfl, fun e he ↦ map_ok _ (field_eq_ok.mpr ?_)⟩
  rw [he _ (.head _)]
  exact hread _ b (field_eq_ok.mp hb)

theorem readsAgain_two {β γ : Type} {key other : Text} {kind : ActionKind} {make : β → γ → Action}
    {write : β → Option Value} {writeOther : γ → Option Value} {read : Datum → Checked β}
    {readOther : Datum → Checked γ} (hkind : ∀ b c, (make b c).kind = kind)
    (hmembers : ∀ b c, (make b c).members = [(key, write b), (other, writeOther c)])
    (hread : ∀ d b, read d = ok b → read (Datum.ofSlot (write b)) = ok b)
    (hreadOther : ∀ d c, readOther d = ok c → readOther (Datum.ofSlot (writeOther c)) = ok c) :
    ReadsAgain ⟨[key, other], fun d ↦ make <$> field d key read <*> field d other readOther⟩
      kind := by
  intro d action h
  obtain ⟨_, c, hmake, hc, rfl⟩ := seq_eq_ok.mp h
  obtain ⟨b, hb, rfl⟩ := map_eq_ok.mp hmake
  rw [hmembers b c]
  refine ⟨hkind b c, rfl, fun e he ↦
    seq_ok (map_ok _ (field_eq_ok.mpr ?_)) (field_eq_ok.mpr ?_)⟩
  · rw [he _ (.head _)]
    exact hread _ b (field_eq_ok.mp hb)
  · rw [he _ (.tail _ (.head _))]
    exact hreadOther _ c (field_eq_ok.mp hc)

theorem setVariable_readsAgain {form : ActionForm} (h : actionForm? .setVariable = some form) :
    ReadsAgain form .setVariable := by
  obtain rfl := Option.some.inj h
  intro d action h
  simp only [seq_eq_ok, map_eq_ok, field_eq_ok] at h
  obtain ⟨_, append, ⟨_, v, ⟨target, htarget, rfl⟩, hv, rfl⟩, happend, rfl⟩ := h
  refine ⟨rfl, rfl, fun e he ↦ seq_ok (seq_ok (map_ok _ (field_eq_ok.mpr ?_))
    (field_eq_ok.mpr ?_)) (field_eq_ok.mpr ?_)⟩
  · rw [he _ (.head _)]
    exact text_again htarget
  · rw [he _ (.tail _ (.head _))]
    exact value_again hv
  · rw [he _ (.tail _ (.tail _ (.head _)))]
    exact optional_again (fun b _ ↦ bool_again b) happend

theorem actionForm?_readsAgain {kind : ActionKind} {form : ActionForm}
    (h : actionForm? kind = some form) : ReadsAgain form kind := by
  cases kind with
  | setVariable => exact setVariable_readsAgain h
  | branch | loop => simp [actionForm?] at h
  | navigate | click | hover | waitFor | getText | evaluate | executeScript | load =>
    obtain rfl := Option.some.inj h
    exact readsAgain_one (fun _ ↦ rfl) (fun _ ↦ rfl) fun _ _ ↦ text_again
  | wait =>
    obtain rfl := Option.some.inj h
    exact readsAgain_one (fun _ ↦ rfl) (fun _ ↦ rfl) fun _ _ ↦
      optional_again fun _ ↦ amount_again
  | screenshot | stop =>
    obtain rfl := Option.some.inj h
    exact readsAgain_one (fun _ ↦ rfl) (fun _ ↦ rfl) fun _ _ ↦ optional_again fun _ ↦ text_again
  | type =>
    obtain rfl := Option.some.inj h
    exact readsAgain_two (fun _ _ ↦ rfl) (fun _ _ ↦ rfl) (fun _ _ ↦ text_again) fun _ _ ↦
      typed_again
  | extract =>
    obtain rfl := Option.some.inj h
    exact readsAgain_two (fun _ _ ↦ rfl) (fun _ _ ↦ rfl) (fun _ _ ↦ text_again) fun _ _ ↦
      optional_again fun _ ↦ record_again fun _ _ ↦ text_again
  | getAttribute =>
    obtain rfl := Option.some.inj h
    exact readsAgain_two (fun _ _ ↦ rfl) (fun _ _ ↦ rfl) (fun _ _ ↦ text_again) fun _ _ ↦
      text_again
  | save =>
    obtain rfl := Option.some.inj h
    exact readsAgain_two (fun _ _ ↦ rfl) (fun _ _ ↦ rfl) (fun _ _ ↦ text_again) fun _ _ ↦
      optionalValue_again
  | setInputFiles =>
    obtain rfl := Option.some.inj h
    exact readsAgain_two (fun _ _ ↦ rfl) (fun _ _ ↦ rfl) (fun _ _ ↦ text_again) fun _ _ ↦
      uploads_again

end BrowserFlow.Document
