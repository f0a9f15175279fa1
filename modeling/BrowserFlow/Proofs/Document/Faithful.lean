import BrowserFlow.Proofs.Document.Plain
import BrowserFlow.Proofs.Document.Revalidation
import BrowserFlow.Proofs.Document.Strict

/-!
Workflows that are their documents. Reading changes four members of a document
and no others: the names of workflows and steps lose the white space at their
ends, a version becomes a text, and a sign becomes the name of its relation
(`Document.Part.changes`). An object in the document becomes a mapping with the
same members (`Document.Part.Becomes`): those that are parts themselves become
what they are read as, and what else there is is kept, so nothing is lost and
nothing is added at any depth. For the parts that nest this is by induction on
the size of the datum (`Document.condition_becomes`, `Document.step_becomes`).
Main statement: an accepted document becomes its workflow
(`Workflow.validate_faithful`). Octets are not kept as they are, but as the
mapping that they list (`Workflow.not_validate_faithful_octets`).
-/

set_option autoImplicit false
set_option relaxedAutoImplicit false

namespace BrowserFlow

namespace Document

open Checked Datum

/-! ### Changes -/

/-- A text without the white space at its ends. -/
def trimmedText : Datum → Datum
  | .text t => .text t.trim
  | other => other

/-- A version as a text without white space at its ends. -/
def versionText : Datum → Datum
  | .text t => .text t.trim
  | .number x => .text x.toText
  | other => other

/-- The name of a relation in place of its sign. -/
def relationName : Datum → Datum
  | .text t => .text (((Entries.find? signs t).map Relation.name).getD t)
  | other => other

namespace Part

/-- The members of a part that reading changes. -/
def changes : Part → List (Text × (Datum → Datum))
  | .workflow => [("name", trimmedText), ("version", versionText)]
  | .step => [("name", trimmedText)]
  | .condition => [("operator", relationName)]
  | _ => []

/-- A member of a part as reading changes it. -/
def changed (part : Part) (key : Text) (x : Datum) : Datum :=
  (Entries.find? part.changes key).getD id x

/-- A part of a document that becomes a value. An object becomes a mapping with the members that
are there and with no others; those that are parts themselves become what they are in it, and the
others are kept as they are changed. -/
inductive Becomes (listings : Bool) : Part → Datum → Value → Prop
  | items {part : Part} {items : List Datum} {values : List Value}
      (hlength : items.length = values.length)
      (hitems : ∀ (index : Nat) x v, items[index]? = some x → values[index]? = some v →
        Becomes listings part x v) :
      Becomes listings (.listOf part) (.sequence items) (.sequence values)
  | object {part : Part} {d : Datum} {entries : Entries Value} (hobject : d.isObject = true)
      (hnodup : (Entries.keys entries).Nodup)
      (hthere : ∀ key, Entries.find? entries key = none ↔ (d.member key).isAbsent = true)
      (hparts : ∀ key below v, Entries.find? (part.members d) key = some below →
        Entries.find? entries key = some v → Becomes listings below (d.member key) v)
      (hothers : ∀ key v, Entries.find? (part.members d) key = none →
        Entries.find? entries key = some v →
          KeptAs listings (part.changed key (d.member key)) v) :
      Becomes listings part d (.mapping entries)

end Part

variable {listings : Bool} {part : Part} {d : Datum} {key : Text} {α β γ : Type}

theorem isAbsent_of_keptAs {x : Datum} {v : Value} (h : KeptAs listings x v) :
    x.isAbsent = false := by
  cases h with
  | listing _ hobject =>
    cases x with
    | absent => cases hobject
    | _ => rfl
  | _ => rfl

theorem isAbsent_of_becomes {x : Datum} {v : Value} (h : part.Becomes listings x v) :
    x.isAbsent = false := by
  cases h with
  | items => rfl
  | object hobject =>
    cases x with
    | absent => cases hobject
    | _ => rfl

/-! ### Members of objects -/

/-- A datum that is kept as a value, or is as absent as that. -/
inductive KeptSlot (x : Datum) : Option Value → Prop
  | absent (h : x.isAbsent = true) : KeptSlot x none
  | there {v : Value} (h : KeptAs true x v) : KeptSlot x (some v)

/-- A member of an object that becomes the value of a field, or is as absent as that. -/
inductive Slot (part : Part) (d : Datum) (key : Text) : Option Value → Prop
  | absent (h : (d.member key).isAbsent = true) : Slot part d key none
  | below {below : Part} {v : Value} (hpart : Entries.find? (part.members d) key = some below)
      (h : below.Becomes true (d.member key) v) : Slot part d key (some v)
  | other {v : Value} (hother : Entries.find? (part.members d) key = none)
      (h : KeptAs true (part.changed key (d.member key)) v) : Slot part d key (some v)

theorem changed_absent (part : Part) (key : Text) : part.changed key .absent = .absent := by
  have hchanges : ∀ change ∈ part.changes, change.2 .absent = .absent := by
    cases part <;> simp [Part.changes, trimmedText, versionText, relationName]
  rw [Part.changed]
  cases hfound : Entries.find? part.changes key with
  | none => rfl
  | some change => exact hchanges _ (Entries.mem_of_find? hfound)

theorem Slot.isAbsent {v : Value} (h : Slot part d key (some v)) :
    (d.member key).isAbsent = false := by
  cases h with
  | below _ h => exact isAbsent_of_becomes h
  | other _ h =>
    cases hmember : d.member key with
    | absent =>
      rw [hmember, changed_absent] at h
      exact isAbsent_of_keptAs h
    | _ => rfl

/-- What is kept in a member that reading does not change. -/
theorem KeptSlot.slot {slot : Option Value} (hother : Entries.find? (part.members d) key = none)
    (hsame : Entries.find? part.changes key = none) (h : KeptSlot (d.member key) slot) :
    Slot part d key slot := by
  cases h with
  | absent h => exact .absent h
  | there h =>
    refine .other hother ?_
    rwa [Part.changed, hsame]

/-- An object becomes the value that is written from the fields that its members become. -/
theorem becomes_of_slots {fields : List (Text × Option Value)} {keys : List Text}
    (hkeys : fields.map Prod.fst = keys) (horder : Entries.KeysInOrder keys)
    (hobject : d.isObject = true) (hknown : ∀ key ∈ d.listed.map Prod.fst, key ∈ keys)
    (hslots : ∀ field ∈ fields, Slot part d field.1 field.2) :
    part.Becomes true d (.ofFields fields) := by
  subst hkeys
  have hfind : ∀ {key slot}, (key, slot) ∈ fields →
      Entries.find? (Entries.present fields) key = slot := Entries.find?_present horder.nodup
  have hslot : ∀ key, key ∈ fields.map Prod.fst →
      Slot part d key (Entries.find? (Entries.present fields) key) := by
    intro key hkey
    obtain ⟨⟨name, slot⟩, hfield, rfl⟩ := List.mem_map.mp hkey
    rw [hfind hfield]
    exact hslots _ hfield
  have hunknown : ∀ key, key ∉ fields.map Prod.fst →
      Entries.find? (Entries.present fields) key = none := fun key hkey ↦
    Entries.find?_eq_none fun hmem ↦ hkey ((Entries.keys_present_sublist fields).subset hmem)
  have hfound : ∀ {key v}, Entries.find? (Entries.present fields) key = some v →
      Slot part d key (some v) := by
    intro key v hv
    by_cases hkey : key ∈ fields.map Prod.fst
    · exact hv ▸ hslot key hkey
    · rw [hunknown key hkey] at hv
      cases hv
  rw [Value.ofFields_of_keysInOrder horder]
  refine .object hobject (horder.nodup.sublist (Entries.keys_present_sublist fields))
    (fun key ↦ ⟨fun hnone ↦ ?_, fun habsent ↦ ?_⟩) (fun key below v hpart hv ↦ ?_)
    (fun key v hother hv ↦ ?_)
  · by_cases hkey : key ∈ fields.map Prod.fst
    · have hempty := hslot key hkey
      rw [hnone] at hempty
      cases hempty with
      | absent h => exact h
    · by_contra hthere
      exact hkey (hknown key (mem_listed_of_member (Bool.not_eq_true _ ▸ hthere)))
  · cases hv : Entries.find? (Entries.present fields) key with
    | none => rfl
    | some v =>
      have hthere := (hfound hv).isAbsent
      rw [habsent] at hthere
      cases hthere
  · cases hfound hv with
    | below hpart' h =>
      obtain rfl := Option.some.inj (hpart.symm.trans hpart')
      exact h
    | other hother =>
      rw [hpart] at hother
      cases hother
  · cases hfound hv with
    | below hpart =>
      rw [hother] at hpart
      cases hpart
    | other _ h => exact h

/-! ### Ways of reading -/

/-- What is read in this way is kept as it is written. -/
def Keeps (read : Datum → Checked α) (write : α → Value) : Prop :=
  ∀ x a, x.isOrdered = true → read x = ok a → KeptAs true x (write a)

/-- The same for what may be absent. -/
def KeepsSlot (read : Datum → Checked α) (write : α → Option Value) : Prop :=
  ∀ x a, x.isOrdered = true → read x = ok a → KeptSlot x (write a)

theorem Keeps.there {read : Datum → Checked α} {write : α → Value} (h : Keeps read write) :
    KeepsSlot read fun a ↦ some (write a) := fun x a hordered ha ↦ .there (h x a hordered ha)

theorem Keeps.optional {read : Datum → Checked α} {write : α → Value} (h : Keeps read write) :
    KeepsSlot (Checked.optional read) fun slot ↦ slot.map write := by
  intro x slot hordered hslot
  rcases optional_eq_ok.mp hslot with ⟨habsent, rfl⟩ | ⟨-, a, ha, rfl⟩
  · exact .absent habsent
  · exact .there (h x a hordered ha)

theorem keeps_text (nonempty : Bool) : Keeps (text false nonempty) .text := by
  intro x t _ h
  obtain ⟨source, rfl, rfl, -⟩ := text_eq_ok.mp h
  exact .text source

theorem keeps_number : Keeps number .number := by
  intro x n _ h
  obtain ⟨rfl, -⟩ := number_eq_ok.mp h
  exact .number n

theorem keeps_bool : Keeps bool .bool := by
  intro x b _ h
  cases x with
  | bool found =>
    obtain rfl := ok_inj.mp h
    exact .bool found
  | _ => exact absurd h (refused_ne_ok _ b)

theorem keeps_value : Keeps value id := fun x _ hordered h ↦
  keptAs_of_value? x hordered (value_eq_ok.mp h)

theorem keeps_policy : Keeps (word policies) fun p ↦ .text p.name := by
  intro x p _ h
  cases x with
  | text t =>
    rw [word] at h
    split at h
    · next found hfound =>
      obtain rfl := ok_inj.mp h
      have hnames : ∀ entry ∈ policies, entry.1 = entry.2.name := by decide
      have hname : t = found.name := hnames _ (Entries.mem_of_find? hfound)
      rw [hname]
      exact .text found.name
    · exact absurd h (refused_ne_ok _ p)
  | _ => exact absurd h (refused_ne_ok _ p)

theorem Keeps.require {read : Datum → Checked α} {write : α → Value} (h : Keeps read write)
    (test : α → Bool) (flaw : Flaw) : Keeps (fun x ↦ require test flaw (read x)) write :=
  fun x a hordered ha ↦ h x a hordered (require_eq_ok.mp ha).1

/-- The first alternative keeps what it reads, and so do the others. -/
theorem Keeps.orElse {read : Datum → Checked α} {write : α → Value} {make : α → β}
    {rest : Datum → List (Checked β)} {writeAll : β → Value} (h : Keeps read write)
    (hmake : ∀ a, writeAll (make a) = write a)
    (hrest : Keeps (fun x ↦ firstOf (rest x)) writeAll) :
    Keeps (fun x ↦ firstOf (make <$> read x :: rest x)) writeAll := by
  intro x b hordered hb
  rcases firstOf_cons_eq_ok.mp hb with hfirst | ⟨-, hlater⟩
  · obtain ⟨a, ha, rfl⟩ := map_eq_ok.mp hfirst
    rw [hmake a]
    exact h x a hordered ha
  · exact hrest x b hordered hlater

theorem keeps_nothing (write : α → Value) : Keeps (fun _ ↦ firstOf []) write :=
  fun _ a _ h ↦ absurd h (firstOf_nil_ne_ok a)

/-- The items of a sequence are read one by one. -/
theorem forall₂_of_sequence {read : Datum → Checked α} {x : Datum} {as : List α}
    (h : sequence read x = ok as) :
    ∃ ds, x = .sequence ds ∧ List.Forall₂ (fun item a ↦ read item = ok a) ds as := by
  obtain ⟨ds, rfl, hds⟩ := sequence_eq_ok.mp h
  refine ⟨ds, rfl, ?_⟩
  rwa [← List.forall₂_map_right_iff (f := ok), ← List.forall₂_map_left_iff, List.forall₂_eq_eq_eq]

theorem Keeps.sequence {read : Datum → Checked α} {write : α → Value} (h : Keeps read write) :
    Keeps (Checked.sequence read) fun as ↦ .sequence (as.map write) := by
  intro x as hordered hread
  obtain ⟨ds, rfl, hds⟩ := forall₂_of_sequence hread
  have hboth := (List.forall₂_and_left _ _).mpr ⟨isOrdered_sequence.mp hordered, hds⟩
  refine .sequence (List.forall₂_map_right_iff.mpr (hboth.imp ?_))
  rintro item a ⟨hitem, ha⟩
  exact h item a hitem ha

theorem Keeps.nonempty {read : Datum → Checked (List α)} {write : List α → Value}
    (h : Keeps read write) : Keeps (fun x ↦ nonempty (read x)) write :=
  fun x as hordered has ↦ h x as hordered (nonempty_eq_ok.mp has).1

theorem Keeps.record {read : Datum → Checked α} {write : α → Value} (h : Keeps read write) :
    Keeps (record read) fun entries ↦ .mapping (entries.map fun (key, a) ↦ (key, write a)) := by
  intro x entries hordered hread
  obtain ⟨hobject, pairs, hpairs, rfl⟩ := record_eq_ok.mp hread
  rw [← List.forall₂_eq_eq_eq, List.forall₂_map_left_iff, List.forall₂_map_right_iff] at hpairs
  have hboth := (List.forall₂_and_left _ _).mpr ⟨isOrdered_listed hobject hordered, hpairs⟩
  have hbeside : Entries.Beside (KeptAs true) x.listed
      (pairs.map fun (key, a) ↦ (key, write a)) := by
    refine List.forall₂_map_right_iff.mpr (hboth.imp ?_)
    rintro member pair ⟨hmember, heq⟩
    obtain ⟨hkey, ha⟩ := Prod.mk.inj heq
    exact ⟨hkey, h member.2 pair.2 hmember ha⟩
  have hkept := keptAs_of_listed hobject hordered hbeside
  rwa [Entries.assignAll_map] at hkept

/-! ### Scalars -/

theorem keeps_amount : Keeps amount Amount.toValue :=
  keeps_number.orElse (fun _ ↦ rfl) ((keeps_text true).orElse (fun _ ↦ rfl) (keeps_nothing _))

theorem keeps_typed : Keeps typed Typed.toValue :=
  (keeps_text false).orElse (fun _ ↦ rfl)
    (keeps_number.orElse (fun _ ↦ rfl) (keeps_bool.orElse (fun _ ↦ rfl) (keeps_nothing _)))

theorem keeps_uploads : Keeps uploads Uploads.toValue :=
  (keeps_text true).orElse (fun _ ↦ rfl)
    ((keeps_text true).sequence.nonempty.orElse (fun _ ↦ rfl) (keeps_nothing _))

theorem keeps_loopItems : Keeps loopItems id :=
  (keeps_text true).orElse (fun _ ↦ rfl)
    (keeps_value.sequence.orElse (fun vs ↦ by rw [List.map_id]; rfl) (keeps_nothing _))

theorem keeps_positiveInteger : Keeps positiveInteger .number :=
  (keeps_number.require _ _).require _ _

theorem keepsSlot_value : KeepsSlot (optional value) id := by
  intro x slot hordered h
  have hkept := keeps_value.optional x slot hordered h
  rwa [Option.map_id] at hkept

theorem keptAs_trimmedText {x : Datum} {t : Text} (h : text true true x = ok t) :
    KeptAs true (trimmedText x) (.text t) := by
  obtain ⟨source, rfl, rfl, -⟩ := text_eq_ok.mp h
  exact .text source.trim

theorem keptAs_versionText {x : Datum} {t : Text} (h : version x = ok t) :
    KeptAs true (versionText x) (.text t) := by
  rcases firstOf_cons_eq_ok.mp h with hfound | ⟨-, h⟩
  · obtain ⟨source, rfl, rfl, -⟩ := text_eq_ok.mp hfound
    exact .text source.trim
  rcases firstOf_cons_eq_ok.mp h with hfound | ⟨-, h⟩
  · obtain ⟨n, hn, rfl⟩ := map_eq_ok.mp hfound
    obtain ⟨rfl, -⟩ := number_eq_ok.mp hn
    exact .text n.toText
  · exact absurd h (firstOf_nil_ne_ok t)

/-- A relation is named, by its sign or by its name. -/
theorem keptAs_relationName {x : Datum} {r : Relation} (h : relation x = ok r) :
    KeptAs true (relationName x) (.text r.name) := by
  cases x with
  | text t =>
    rw [relation] at h
    rw [relationName]
    cases hsign : Entries.find? signs t with
    | some found =>
      simp only [hsign] at h
      obtain rfl := ok_inj.mp h
      exact .text found.name
    | none =>
      simp only [hsign] at h
      split at h
      · exact absurd h (refused_ne_ok _ r)
      · simp only [word] at h
        split at h
        · next found hfound =>
          obtain rfl := ok_inj.mp h
          obtain ⟨named, -, heq⟩ := List.mem_map.mp (Entries.mem_of_find? hfound)
          obtain ⟨rfl, rfl⟩ := Prod.mk.inj heq
          exact .text named.name
        · exact absurd h (refused_ne_ok _ r)
  | _ => exact absurd h (refused_ne_ok _ r)

/-! ### Conditions -/

theorem KeepsSlot.slot {read : Datum → Checked α} {write : α → Option Value}
    (h : KeepsSlot read write) (hordered : d.isOrdered = true) {a : α}
    (ha : read (d.member key) = ok a) (hother : Entries.find? (part.members d) key = none)
    (hsame : Entries.find? part.changes key = none) : Slot part d key (write a) :=
  (h _ a (isOrdered_member hordered key) ha).slot hother hsame

/-- A list of parts becomes the list of what they become. -/
theorem becomes_of_sequence {read : Datum → Checked α} {write : α → Value} {x : Datum}
    {as : List α} (hread : ∀ ds, x = .sequence ds → ∀ item ∈ ds, ∀ a, read item = ok a →
      part.Becomes true item (write a))
    (h : sequence read x = ok as) :
    (Part.listOf part).Becomes true x (.sequence (as.map write)) := by
  obtain ⟨ds, rfl, hds⟩ := forall₂_of_sequence h
  refine .items (by rw [List.length_map, hds.length_eq]) fun index item v hitem hv ↦ ?_
  rw [List.getElem?_map] at hv
  obtain ⟨a, ha, rfl⟩ := Option.map_eq_some_iff.mp hv
  obtain ⟨hindex, rfl⟩ := List.getElem?_eq_some_iff.mp hitem
  obtain ⟨hindex', rfl⟩ := List.getElem?_eq_some_iff.mp ha
  exact hread ds rfl _ (List.getElem_mem hindex) _ (hds.get hindex hindex')

theorem comparison_becomes {c : Comparison} (hordered : d.isOrdered = true)
    (h : comparison d = ok c) : Part.condition.Becomes true d c.toValue := by
  simp only [comparison, requireRight_eq_ok, form_eq_ok, seq_eq_ok, map_eq_ok, field_eq_ok] at h
  obtain ⟨⟨hobject, hknown, _, right, ⟨_, left, ⟨r, hr, rfl⟩, hleft, rfl⟩, hright, rfl⟩, -⟩ := h
  have horder : Entries.KeysInOrder ["operator", "left", "right"] := by decide
  refine becomes_of_slots (by rfl) horder hobject hknown (List.forall_iff_forall_mem.mp ⟨?_, ?_, ?_⟩)
  · exact .other rfl (keptAs_relationName hr)
  · exact keeps_value.there.slot hordered hleft rfl rfl
  · exact keepsSlot_value.slot hordered hright rfl rfl

theorem conditionList_becomes {key : Text} {cs : List Condition}
    (hread : ∀ ds, d.member key = .sequence ds → ∀ x ∈ ds, ∀ c, condition x = ok c →
      Part.condition.Becomes true x c.toValue)
    (horder : Entries.KeysInOrder [key])
    (hpart : Entries.find? conditionMembers key = some (.listOf .condition))
    (h : conditionList d key (sequence condition (d.member key)) = ok cs) :
    Part.condition.Becomes true d
      (.ofFields [(key, some (.sequence (Condition.toValues cs)))]) := by
  obtain ⟨hobject, hknown, hparts, -⟩ := conditionList_eq_ok.mp h
  refine becomes_of_slots (by rfl) horder hobject hknown (List.forall_iff_forall_mem.mp ?_)
  rw [toValues_eq_map]
  exact .below hpart (becomes_of_sequence hread hparts)

/-- A condition becomes what is read, at any depth. -/
theorem condition_becomes (d : Datum) {c : Condition} (hordered : d.isOrdered = true)
    (h : condition d = ok c) : Part.condition.Becomes true d c.toValue := by
  have hitem : ∀ key ds, d.member key = .sequence ds → ∀ x ∈ ds, ∀ c, condition x = ok c →
      Part.condition.Becomes true x c.toValue := fun key ds hds x hx c hc ↦
    have : sizeOf x < sizeOf d := sizeOf_item_lt hds hx
    have hmember := hds ▸ isOrdered_member hordered key
    condition_becomes x (isOrdered_sequence.mp hmember x hx) hc
  rcases condition_cases h with ⟨compared, hcompared, rfl⟩ | ⟨cs, hcs, rfl⟩ | ⟨cs, hcs, rfl⟩ |
    ⟨inner, hinner, rfl⟩
  · exact comparison_becomes hordered hcompared
  · exact conditionList_becomes (hitem "all") (by decide) rfl hcs
  · exact conditionList_becomes (hitem "any") (by decide) rfl hcs
  · obtain ⟨hobject, hknown, hfield⟩ := form_eq_ok.mp hinner
    rw [field_eq_ok] at hfield
    have hpresent : d.member "not" ≠ .absent := by
      intro habsent
      rw [habsent, condition_absent] at hfield
      exact refused_ne_ok _ inner hfield
    have : sizeOf (d.member "not") < sizeOf d := sizeOf_member_lt hpresent
    have hbelow := condition_becomes (d.member "not") (isOrdered_member hordered "not") hfield
    have hfields : Part.condition.Becomes true d (.ofFields [("not", some inner.toValue)]) :=
      becomes_of_slots (by rfl) (by decide) hobject hknown
        (List.forall_iff_forall_mem.mp (.below rfl hbelow))
    exact hfields
termination_by sizeOf d

/-- A part that may be absent, in a member. -/
theorem slot_optional {below : Part} {read : Datum → Checked α} {write : α → Value} {a? : Option α}
    (hread : ∀ a, read (d.member key) = ok a → below.Becomes true (d.member key) (write a))
    (hpart : Entries.find? (part.members d) key = some below)
    (h : Checked.optional read (d.member key) = ok a?) : Slot part d key (a?.map write) := by
  rcases optional_eq_ok.mp h with ⟨habsent, rfl⟩ | ⟨-, a, ha, rfl⟩
  · exact .absent habsent
  · exact .below hpart (hread a ha)

/-! ### Loops -/

theorem isObject_of_member {x : Datum} (hx : d.member key = x) (h : x.isAbsent = false) :
    d.isObject = true := by
  subst hx
  cases d with
  | object => rfl
  | _ => cases h

/-- A loop becomes what is read. -/
theorem iteration_becomes {spec : Iteration} (hordered : d.isOrdered = true)
    (h : iteration d = ok spec) : Part.loop.Becomes true d spec.toValue := by
  have hname : ∀ {name : Text}, d.member "type" = .text name →
      Slot .loop d "type" (some (.text name)) := fun {name} htype ↦
    .other rfl (show KeptAs true (d.member "type") _ from htype ▸ .text name)
  cases iteration_parts h with
  | whileHolds htype hknown hcondition hlimit =>
    refine becomes_of_slots (by rfl) (by decide) (isObject_of_member htype rfl) hknown
      (List.forall_iff_forall_mem.mp ⟨hname htype, ?_, ?_⟩)
    · exact .below rfl (condition_becomes _ (isOrdered_member hordered "condition") hcondition)
    · exact keeps_positiveInteger.optional.slot hordered hlimit rfl rfl
  | range htype hknown hcounter hstart hstop hpace =>
    refine becomes_of_slots (by rfl) (by decide) (isObject_of_member htype rfl) hknown
      (List.forall_iff_forall_mem.mp ⟨hname htype, ?_, ?_, ?_, ?_⟩)
    · exact (keeps_text true).there.slot hordered hcounter rfl rfl
    · exact keeps_amount.there.slot hordered hstart rfl rfl
    · exact keeps_amount.there.slot hordered hstop rfl rfl
    · exact keeps_amount.optional.slot hordered hpace rfl rfl
  | forEach htype hknown hcounter hsource =>
    refine becomes_of_slots (by rfl) (by decide) (isObject_of_member htype rfl) hknown
      (List.forall_iff_forall_mem.mp ⟨hname htype, ?_, ?_⟩)
    · exact (keeps_text true).there.slot hordered hcounter rfl rfl
    · exact keeps_loopItems.there.slot hordered hsource rfl rfl
  | times htype hknown hcount hcounter =>
    refine becomes_of_slots (by rfl) (by decide) (isObject_of_member htype rfl) hknown
      (List.forall_iff_forall_mem.mp ⟨hname htype, ?_, ?_⟩)
    · exact keeps_amount.there.slot hordered hcount rfl rfl
    · exact (keeps_text true).optional.slot hordered hcounter rfl rfl

/-! ### Actions -/

/-- What is read in the form of an action is kept in its members. -/
def KeepsMembers (form : ActionForm) : Prop :=
  ∀ d action, d.isOrdered = true → form.read d = ok action →
    ∀ member ∈ action.members, KeptSlot (d.member member.1) member.2

theorem KeepsSlot.one {key : Text} {make : β → Action} {write : β → Option Value}
    {read : Datum → Checked β} (hread : KeepsSlot read write)
    (hmembers : ∀ b, (make b).members = [(key, write b)]) :
    KeepsMembers ⟨[key], fun d ↦ make <$> field d key read⟩ := by
  intro d action hordered h
  obtain ⟨b, hb, rfl⟩ := map_eq_ok.mp h
  rw [hmembers b]
  exact List.forall_iff_forall_mem.mp
    (hread _ b (isOrdered_member hordered key) (field_eq_ok.mp hb))

theorem KeepsSlot.two {key other : Text} {make : β → γ → Action} {write : β → Option Value}
    {writeOther : γ → Option Value} {read : Datum → Checked β} {readOther : Datum → Checked γ}
    (hread : KeepsSlot read write) (hreadOther : KeepsSlot readOther writeOther)
    (hmembers : ∀ b c, (make b c).members = [(key, write b), (other, writeOther c)]) :
    KeepsMembers ⟨[key, other], fun d ↦ make <$> field d key read <*> field d other readOther⟩ := by
  intro d action hordered h
  obtain ⟨_, c, hmake, hc, rfl⟩ := seq_eq_ok.mp h
  obtain ⟨b, hb, rfl⟩ := map_eq_ok.mp hmake
  rw [hmembers b c]
  exact List.forall_iff_forall_mem.mp
    ⟨hread _ b (isOrdered_member hordered key) (field_eq_ok.mp hb),
      hreadOther _ c (isOrdered_member hordered other) (field_eq_ok.mp hc)⟩

theorem setVariable_keepsMembers {form : ActionForm} (h : actionForm? .setVariable = some form) :
    KeepsMembers form := by
  obtain rfl := Option.some.inj h
  intro d action hordered h
  simp only [seq_eq_ok, map_eq_ok, field_eq_ok] at h
  obtain ⟨_, append, ⟨_, v, ⟨target, htarget, rfl⟩, hv, rfl⟩, happend, rfl⟩ := h
  have hmember := isOrdered_member hordered
  exact List.forall_iff_forall_mem.mp ⟨(keeps_text true).there _ target (hmember _) htarget,
    keeps_value.there _ v (hmember _) hv, keeps_bool.optional _ append (hmember _) happend⟩

theorem keepsMembers {kind : ActionKind} {form : ActionForm} (h : actionForm? kind = some form) :
    KeepsMembers form := by
  have htext := (keeps_text true).there
  have hoptional := (keeps_text true).optional
  cases kind with
  | setVariable => exact setVariable_keepsMembers h
  | branch | loop => simp [actionForm?] at h
  | navigate | click | hover | waitFor | getText | evaluate | executeScript | load =>
    obtain rfl := Option.some.inj h
    exact htext.one fun _ ↦ rfl
  | wait =>
    obtain rfl := Option.some.inj h
    exact keeps_amount.optional.one fun _ ↦ rfl
  | screenshot | stop =>
    obtain rfl := Option.some.inj h
    exact hoptional.one fun _ ↦ rfl
  | type =>
    obtain rfl := Option.some.inj h
    exact htext.two keeps_typed.there fun _ _ ↦ rfl
  | extract =>
    obtain rfl := Option.some.inj h
    exact htext.two (keeps_text false).record.optional fun _ _ ↦ rfl
  | getAttribute =>
    obtain rfl := Option.some.inj h
    exact htext.two htext fun _ _ ↦ rfl
  | save =>
    obtain rfl := Option.some.inj h
    exact htext.two keepsSlot_value fun _ _ ↦ rfl
  | setInputFiles =>
    obtain rfl := Option.some.inj h
    exact htext.two keeps_uploads.there fun _ _ ↦ rfl

/-! ### Steps -/

theorem retryPlan_becomes {plan : RetryPlan} (hordered : d.isOrdered = true)
    (h : retryPlan d = ok plan) : Part.retry.Becomes true d plan.toValue := by
  have hmost := (keeps_number.require Number.isInteger .notInteger).require
    (fun n ↦ Number.le 1 n) (.below 1)
  have hdelay := (keeps_number.require (fun n ↦ Number.le 0 n) (.below 0)).require
    (fun n ↦ Number.le n longestDelay) (.above longestDelay)
  simp only [retryPlan, form_eq_ok, seq_eq_ok, map_eq_ok, field_eq_ok] at h
  obtain ⟨hobject, hknown, _, delay, ⟨most, hm, rfl⟩, hd, rfl⟩ := h
  exact becomes_of_slots (by rfl) (by decide) hobject hknown (List.forall_iff_forall_mem.mp
    ⟨hmost.there.slot hordered hm rfl rfl, hdelay.there.slot hordered hd rfl rfl⟩)

variable {kind : ActionKind}

/-- The parts in a step of a kind. -/
theorem members_step (hkind : formOf? kinds (d.member "action") = some kind) :
    Part.step.members d =
      ([("condition", .condition), ("retry", .retry)] : List (Text × Part)) ++
        actionMembers kind := by
  rw [Part.members.eq_def]
  simp only [hkind]
  rfl

/-- What every step has becomes what is read. -/
theorem header_slots {head : StepHeader} (hordered : d.isOrdered = true)
    (hkind : formOf? kinds (d.member "action") = some kind) (h : header d = ok head) :
    ∀ field ∈ head.members kind, Slot .step d field.1 field.2 := by
  have hothers : ∀ kind, ∀ key ∈ (["name", "description", "on_error", "timeout", "action"] :
      List Text), Entries.find?
        (([("condition", .condition), ("retry", .retry)] : List (Text × Part)) ++
          actionMembers kind) key = none := by
    intro kind
    cases kind <;> decide
  have hother : ∀ key ∈ (["name", "description", "on_error", "timeout", "action"] : List Text),
      Entries.find? (Part.step.members d) key = none := fun key hkey ↦ by
    rw [members_step hkind]
    exact hothers kind key hkey
  have htimeout : Keeps timeout .number := (keeps_number.require _ _).require _ _
  have haction : d.member "action" = .text kind.name := by
    obtain ⟨name, hname, hmem⟩ := formOf?_eq_some hkind
    obtain ⟨named, -, heq⟩ := List.mem_map.mp hmem
    obtain ⟨rfl, rfl⟩ := Prod.mk.inj heq
    exact hname
  simp only [header, seq_eq_ok, map_eq_ok, field_eq_ok] at h
  obtain ⟨_, guard, ⟨_, limit, ⟨_, plan, ⟨_, policy, ⟨_, description, ⟨name, hname, rfl⟩,
    hdescription, rfl⟩, hpolicy, rfl⟩, hplan, rfl⟩, hlimit, rfl⟩, hguard, rfl⟩ := h
  refine List.forall_iff_forall_mem.mp ⟨?_, ?_, ?_, ?_, ?_, ?_, ?_⟩
  · exact .other (hother "name" (by decide)) (keptAs_trimmedText hname)
  · exact (keeps_text false).optional.slot hordered hdescription (hother "description" (by decide))
      rfl
  · exact keeps_policy.optional.slot hordered hpolicy (hother "on_error" (by decide)) rfl
  · exact slot_optional (fun _ ↦ retryPlan_becomes (isOrdered_member hordered "retry")) rfl hplan
  · exact htimeout.optional.slot hordered hlimit (hother "timeout" (by decide)) rfl
  · exact slot_optional (fun _ ↦ condition_becomes _ (isOrdered_member hordered "condition")) rfl
      hguard
  · exact .other (hother "action" (by decide))
      (show KeptAs true (d.member "action") _ from haction ▸ .text kind.name)

theorem act_becomes {form : ActionForm} {head : StepHeader} {action : Action}
    (hobject : d.isObject = true) (hordered : d.isOrdered = true)
    (hkind : formOf? kinds (d.member "action") = some kind) (hform : actionForm? kind = some form)
    (hknown : ∀ key ∈ d.listed.map Prod.fst, key ∈ headerKeys ++ form.keys)
    (hhead : header d = ok head) (haction : form.read d = ok action) :
    Part.step.Becomes true d (Step.act head action).toValue := by
  obtain ⟨rfl, hkeys, -⟩ := actionForm?_readsAgain hform d action haction
  have hforms : ∀ kind form, actionForm? kind = some form → ∀ key ∈ form.keys,
      Entries.find? ([("condition", .condition), ("retry", .retry)] : List (Text × Part)) key =
          none ∧
        Entries.find? Part.step.changes key = none := by
    intro kind form hform
    cases kind with
    | branch | loop => simp [actionForm?] at hform
    | _ =>
      obtain rfl := Option.some.inj hform
      decide
  rw [Step.toValue]
  refine becomes_of_slots ?_ (keysInOrder_action hform) hobject
    hknown fun field hfield ↦ ?_
  · rw [List.map_append, hkeys]
    rfl
  rcases List.mem_append.mp hfield with hfield | hfield
  · exact header_slots hordered hkind hhead field hfield
  · have hkey : field.1 ∈ form.keys := hkeys ▸ List.mem_map_of_mem hfield
    obtain ⟨hother, hsame⟩ := hforms _ _ hform field.1 hkey
    refine (keepsMembers hform d action hordered haction field hfield).slot ?_ hsame
    rw [members_step hkind, actionMembers_of_form hform, List.append_nil]
    exact hother

/-- A step becomes what is read, with the steps in it. -/
theorem step_becomes (d : Datum) {s : Step} (hordered : d.isOrdered = true) (h : step d = ok s) :
    Part.step.Becomes true d s.toValue := by
  have hitem : ∀ key ds, d.member key = .sequence ds → ∀ x ∈ ds, ∀ s, step x = ok s →
      Part.step.Becomes true x s.toValue := fun key ds hds x hx s hs ↦
    have : sizeOf x < sizeOf d := sizeOf_item_lt hds hx
    have hmember := hds ▸ isOrdered_member hordered key
    step_becomes x (isOrdered_sequence.mp hmember x hx) hs
  obtain ⟨hobject, -⟩ := kind_of_step h
  have hvalue := isOrdered_member hordered "value"
  cases step_parts h with
  | act hkind hform hknown hhead haction =>
    exact act_becomes hobject hordered hkind hform hknown hhead haction
  | branch hkind hknown hhead hcondition hsteps _ hotherwise =>
    have hmembers := members_step hkind
    rw [Step.toValue, toValues_eq_map_steps, otherwiseToValue_eq_map]
    refine becomes_of_slots (by rfl) (by decide) hobject hknown
      (List.forall_mem_append.mpr ⟨header_slots hordered hkind hhead,
        List.forall_iff_forall_mem.mp ⟨?_, ?_, ?_⟩⟩)
    · exact .below (by rw [hmembers]; rfl) (condition_becomes _ hvalue hcondition)
    · exact .below (by rw [hmembers]; rfl) (becomes_of_sequence (hitem "steps") hsteps)
    · exact slot_optional (fun _ ↦ becomes_of_sequence (hitem "else_steps"))
        (by rw [hmembers]; rfl) hotherwise
  | loop hkind hknown hhead hspec hsteps =>
    have hmembers := members_step hkind
    rw [Step.toValue, toValues_eq_map_steps]
    refine becomes_of_slots (by rfl) (by decide) hobject hknown
      (List.forall_mem_append.mpr ⟨header_slots hordered hkind hhead,
        List.forall_iff_forall_mem.mp ⟨?_, ?_⟩⟩)
    · exact .below (by rw [hmembers]; rfl) (iteration_becomes hvalue hspec)
    · exact .below (by rw [hmembers]; rfl) (becomes_of_sequence (hitem "steps") hsteps)
termination_by sizeOf d

/-! ### Workflows -/

/-- A workflow becomes what is read. -/
theorem workflow_becomes {w : Workflow} (hordered : d.isOrdered = true) (h : workflow d = ok w) :
    Part.workflow.Becomes true d w.toValue := by
  simp only [workflow, form_eq_ok, seq_eq_ok, map_eq_ok, field_eq_ok] at h
  obtain ⟨hobject, hknown, _, steps, ⟨_, bindings, ⟨_, description, ⟨_, number, ⟨name, hname, rfl⟩,
    hnumber, rfl⟩, hdescription, rfl⟩, hbindings, rfl⟩, hsteps, rfl⟩ := h
  obtain ⟨hsteps, -⟩ := nonempty_eq_ok.mp hsteps
  have hitems : ∀ ds, d.member "steps" = .sequence ds → ∀ x ∈ ds, ∀ s, step x = ok s →
      Part.step.Becomes true x s.toValue := fun ds hds x hx s hs ↦
    have hmember := hds ▸ isOrdered_member hordered "steps"
    step_becomes x (isOrdered_sequence.mp hmember x hx) hs
  have hrecord : Keeps (record value) .mapping := by
    have hkept := keeps_value.record
    simpa using hkept
  rw [Workflow.toValue, toValues_eq_map_steps]
  refine becomes_of_slots (by rfl) (by decide) hobject hknown
    (List.forall_iff_forall_mem.mp ⟨?_, ?_, ?_, ?_, ?_⟩)
  · exact .other rfl (keptAs_trimmedText hname)
  · exact .other rfl (keptAs_versionText hnumber)
  · exact (keeps_text false).optional.slot hordered hdescription rfl rfl
  · exact hrecord.optional.slot hordered hbindings rfl rfl
  · exact .below rfl (becomes_of_sequence hitems hsteps)

end Document

namespace Workflow

/-- An accepted document becomes its workflow: the names of the workflow and of its steps without
the white space at their ends, the version as a text, the relations by their names, and all else
as it is and in its order. Its objects have their entries in the order in which every object has
them. -/
theorem validate_faithful {document : Datum} {validated : Validated}
    (hordered : document.isOrdered = true) (h : validate document = .ok validated) :
    Document.Part.workflow.Becomes true document validated.workflow.toValue :=
  Document.workflow_becomes hordered (validate_eq_ok.mp h).1

/-- A document with a padded name, a number as its version, a sign in a condition within a
condition, and variables of which one stands under the ancestor's key and one is octets. -/
def padded : Datum :=
  .object [("version", .number 0), ("name", .text " padded\n"),
    ("variables", .object [("7", .bool true), ("__proto__", .null), ("o", .bytes [104, 105])] []),
    ("steps", .sequence [
      .object [("name", .text "check "), ("action", .text "if"),
        ("value", .object [("not", .object [("right", .null), ("operator", .text "<="),
          ("left", .text "\x7b\x7b n \x7d\x7d")] [])] []),
        ("steps", .sequence [
          .object [("name", .text "go"), ("action", .text "click"), ("selector", .text " #a ")]
            []])] []])] []

theorem validate_faithful_padded : ∃ validated, validate padded = .ok validated ∧
    validated.workflow.name = "padded" ∧ validated.workflow.version = "0" ∧
    validated.workflow.declared = ["7", "o"] ∧
    Document.Part.workflow.Becomes true padded validated.workflow.toValue := by
  have haccepted : (validate padded).toOption.map (fun v ↦ (v.workflow.name, v.workflow.version,
      v.workflow.declared)) = some (("padded" : Text), ("0" : Text), (["7", "o"] : List Text)) := by
    decide +kernel
  obtain ⟨validated, hvalidated, hshape⟩ := Option.map_eq_some_iff.mp haccepted
  obtain ⟨hname, hrest⟩ := Prod.mk.inj hshape
  obtain ⟨hversion, hdeclared⟩ := Prod.mk.inj hrest
  have hpadded := validate_of_toOption hvalidated
  exact ⟨validated, hpadded, hname, hversion, hdeclared,
    validate_faithful (by decide +kernel) hpadded⟩

/-- A document with octets as a variable. -/
def withOctets : Datum :=
  .object [("name", .text "a"), ("version", .text "1"),
    ("variables", .object [("key", .bytes [104, 105])] []), ("steps", .sequence [
      .object [("name", .text "s"), ("action", .text "click"), ("selector", .text "#a")] []])] []

theorem not_keptAs_bytes {bytes : List UInt8} {v : Value} :
    ¬ Datum.KeptAs false (.bytes bytes) v := by
  intro h
  cases h with
  | listing hlistings => cases hlistings

/-- Octets in a document are accepted, but they are not kept as they are. -/
theorem not_validate_faithful_octets : ∃ validated, validate withOctets = .ok validated ∧
    withOctets.isOrdered = true ∧
    ¬ Document.Part.workflow.Becomes false withOctets validated.workflow.toValue := by
  have haccepted : ((validate withOctets).toOption).isSome = true := by decide +kernel
  obtain ⟨validated, hvalidated⟩ := Option.isSome_iff_exists.mp haccepted
  refine ⟨validated, validate_of_toOption hvalidated, by decide +kernel, fun hbecomes ↦ ?_⟩
  generalize validated.workflow.toValue = written at hbecomes
  cases hbecomes with
  | @object _ _ entries _ _ hthere _ hothers =>
    cases hfound : Entries.find? entries "variables" with
    | none => exact absurd ((hthere "variables").mp hfound) (by decide +kernel)
    | some v =>
      have hkept : Datum.KeptAs false (.object [("key", .bytes [104, 105])] []) v :=
        hothers "variables" v rfl hfound
      cases hkept with
      | listing hlistings => cases hlistings
      | @mapping _ kept hkeys hentries =>
        have hkey : ("key" : Text) ∈ Entries.keys kept := by
          rw [hkeys]
          decide
        obtain ⟨⟨key, w⟩, hmem, rfl⟩ := List.mem_map.mp hkey
        exact not_keptAs_bytes (hentries _ _ w (.head _) hmem)

end Workflow

end BrowserFlow
