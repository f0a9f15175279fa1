import BrowserFlow.Document.Reading
import BrowserFlow.Document.Written
import BrowserFlow.Proofs.Document.Clean

/-!
What is written from fields, and plain data read again. The value written from
fields whose keys are in order is an object with exactly these fields as its
members (`Datum.member_ofFields`), so a form with the keys of the fields knows
all of them (`Checked.form_written`). A value that was read from plain data is
read from its own datum again (`Document.value?_again`): the entries of its
mappings are in order, so assigning them one after the other gives them back.
-/

set_option autoImplicit false
set_option relaxedAutoImplicit false

namespace BrowserFlow

/-! ### Members that were written -/

/-- Fields with keys in order are the entries of the value written from them. -/
theorem Value.ofFields_of_keysInOrder {fields : List (Text × Option Value)}
    (h : Entries.KeysInOrder (fields.map Prod.fst)) :
    ofFields fields = .mapping (Entries.present fields) := by
  have hinorder : Entries.InOrder (Entries.present fields) :=
    h.sublist (Entries.keys_present_sublist fields)
  rw [ofFields, ofEntries, Entries.ofList_of_inOrder hinorder]

namespace Datum

/-- The datum of a value that may be absent. -/
def ofSlot (slot : Option Value) : Datum := (slot.map ofValue).getD .absent

theorem isAbsent_ofValue (v : Value) : (ofValue v).isAbsent = false := by cases v <;> rfl

theorem ofItems_eq_map (items : List Value) : ofItems items = items.map ofValue := by
  induction items with
  | nil => rfl
  | cons item rest ih => rw [ofItems, ih, List.map_cons]

theorem ofEntries_eq_map (entries : Entries Value) :
    ofEntries entries = entries.map fun (key, value) ↦ (key, ofValue value) := by
  induction entries with
  | nil => rfl
  | cons entry rest ih => rw [ofEntries, ih, List.map_cons]

theorem listed_mapping (entries : Entries Value) :
    listed (ofValue (.mapping entries)) = ofEntries entries := by simp [ofValue, listed]

theorem find?_ofEntries (entries : Entries Value) (key : Text) :
    Entries.find? (ofEntries entries) key = (Entries.find? entries key).map ofValue := by
  induction entries with
  | nil => rfl
  | cons entry rest ih =>
    obtain ⟨name, value⟩ := entry
    by_cases hname : name = key
    · simp [ofEntries, Entries.find?, hname]
    · simpa [ofEntries, Entries.find?, hname] using ih

/-- Each field is the member under its key. -/
theorem member_ofFields {fields : List (Text × Option Value)} {keys : List Text}
    (hkeys : fields.map Prod.fst = keys) (h : Entries.KeysInOrder keys) {key : Text}
    {slot : Option Value} (hmem : (key, slot) ∈ fields) :
    (ofValue (.ofFields fields)).member key = ofSlot slot := by
  subst hkeys
  rw [Value.ofFields_of_keysInOrder h, ofValue, member, find?_ofEntries,
    Entries.find?_present h.nodup hmem]
  cases slot <;> rfl

end Datum

namespace Checked

variable {α β : Type}

theorem map_ok {c : Checked α} {a : α} (f : α → β) (h : c = ok a) : f <$> c = ok (f a) :=
  map_eq_ok.mpr ⟨a, h, rfl⟩

theorem seq_ok {f : Checked (α → β)} {g : α → β} {c : Checked α} {a : α} (hf : f = ok g)
    (h : c = ok a) : f <*> c = ok (g a) := seq_eq_ok.mpr ⟨g, a, hf, h, rfl⟩

/-- A form with the keys of the fields from which an object was written knows all its members. -/
theorem form_ofFields {fields : List (Text × Option Value)} {keys : List Text}
    (hkeys : fields.map Prod.fst = keys) (h : Entries.KeysInOrder keys) (members : Checked α) :
    form keys (Datum.ofValue (.ofFields fields)) members = members := by
  subst hkeys
  have hknown : ∀ key ∈ (Datum.ofValue (.ofFields fields)).listed.map Prod.fst,
      key ∈ fields.map Prod.fst := by
    intro key hkey
    rw [Value.ofFields_of_keysInOrder h, Datum.listed_mapping, Datum.ofEntries_eq_map,
      List.map_map] at hkey
    exact (Entries.keys_present_sublist fields).subset hkey
  have hunknown : (((Datum.ofValue (.ofFields fields)).listed.map Prod.fst).filter fun key ↦
      !(fields.map Prod.fst).contains key) = [] := by
    rw [List.filter_eq_nil_iff]
    intro key hkey
    simpa using hknown key hkey
  unfold form
  rw [hunknown]
  rfl

/-- A form with the keys of the fields from which an object was written has no issue of its own
there. -/
theorem form_written {fields : List (Text × Option Value)} {keys : List Text}
    (hkeys : fields.map Prod.fst = keys) (h : Entries.KeysInOrder keys) {members : Checked α}
    {a : α} (hmembers : members = ok a) :
    form keys (Datum.ofValue (.ofFields fields)) members = ok a :=
  (form_ofFields hkeys h members).trans hmembers

theorem field_written {fields : List (Text × Option Value)} {keys : List Text}
    (hkeys : fields.map Prod.fst = keys) (h : Entries.KeysInOrder keys) {key : Text}
    {slot : Option Value} (hmem : (key, slot) ∈ fields) {read : Datum → Checked α} {a : α}
    (hread : read (Datum.ofSlot slot) = ok a) :
    field (Datum.ofValue (.ofFields fields)) key read = ok a := by
  rw [field_eq_ok, Datum.member_ofFields hkeys h hmem]
  exact hread

/-- What may be absent is read again when it is read again where it is there. -/
theorem optional_again {read : Datum → Checked α} {write : α → Value} {d : Datum} {a? : Option α}
    (hread : ∀ a, read d = ok a → read (Datum.ofValue (write a)) = ok a)
    (h : optional read d = ok a?) :
    optional read (Datum.ofSlot (a?.map write)) = ok a? := by
  rcases optional_eq_ok.mp h with ⟨-, rfl⟩ | ⟨-, a, ha, rfl⟩
  · rfl
  · exact optional_eq_ok.mpr (.inr ⟨Datum.isAbsent_ofValue (write a), a, hread a ha, rfl⟩)

theorem sequence_again {read : Datum → Checked α} {write : α → Value} {d : Datum} {as : List α}
    (hread : ∀ ds, d = .sequence ds → ∀ x ∈ ds, ∀ a, read x = ok a →
      read (Datum.ofValue (write a)) = ok a)
    (h : sequence read d = ok as) :
    sequence read (Datum.ofValue (.sequence (as.map write))) = ok as := by
  obtain ⟨ds, rfl, hds⟩ := sequence_eq_ok.mp h
  refine sequence_eq_ok.mpr ⟨_, rfl, ?_⟩
  rw [Datum.ofItems_eq_map, List.map_map, List.map_map]
  refine List.map_congr_left fun a ha ↦ ?_
  have hmem : ok a ∈ ds.map read := hds ▸ List.mem_map_of_mem ha
  obtain ⟨x, hx, hxa⟩ := List.mem_map.mp hmem
  exact hread ds rfl x hx a hxa

theorem record_again {read : Datum → Checked α} {write : α → Value} {d : Datum}
    {entries : Entries α}
    (hread : ∀ x a, read x = ok a → read (Datum.ofValue (write a)) = ok a)
    (h : record read d = ok entries) :
    record read (Datum.ofValue (.mapping (entries.map fun (key, a) ↦ (key, write a)))) =
      ok entries := by
  obtain ⟨-, pairs, hpairs, rfl⟩ := record_eq_ok.mp h
  have hinorder : Entries.InOrder (Entries.assignAll [] pairs) :=
    Entries.inOrder_nil.assignAll pairs
  refine record_eq_ok.mpr ⟨rfl, _, ?_, Entries.assignAll_of_inOrder hinorder⟩
  have hvalue : ∀ entry ∈ Entries.assignAll [] pairs,
      read (Datum.ofValue (write entry.2)) = ok entry.2 := by
    intro entry hentry
    have hpair : entry ∈ pairs := by simpa using Entries.mem_assignAll hentry
    have hmem := (congrArg ((entry.1, ok entry.2) ∈ ·) hpairs).mpr
      (List.mem_map.mpr ⟨entry, hpair, rfl⟩)
    obtain ⟨⟨key, x⟩, -, heq⟩ := List.mem_map.mp hmem
    exact hread x entry.2 (Prod.mk.inj heq).2
  rw [Datum.listed_mapping, Datum.ofEntries_eq_map, List.map_map, List.map_map]
  exact List.map_congr_left fun entry hentry ↦
    congrArg (Prod.mk entry.1) (hvalue entry hentry)

end Checked

/-! ### Plain data -/

namespace Document

/-- Entries in order with values that are read from their own data. -/
def Settled (entries : Entries Value) : Prop :=
  entries.InOrder ∧ ∀ entry ∈ entries, value? (Datum.ofValue entry.2) = some entry.2

theorem settled_nil : Settled [] := ⟨Entries.inOrder_nil, by simp⟩

theorem Settled.assign {entries : Entries Value} (h : Settled entries) {key : Text} {v : Value}
    (hv : value? (Datum.ofValue v) = some v) : Settled (entries.assign key v) := by
  refine ⟨h.1.assign key v, fun entry hentry ↦ ?_⟩
  rcases Entries.mem_assign hentry with hold | rfl
  · exact h.2 entry hold
  · exact hv

theorem entries?_ofEntries {later : Entries Value}
    (h : ∀ entry ∈ later, value? (Datum.ofValue entry.2) = some entry.2) (done : Entries Value) :
    entries? done (Datum.ofEntries later) = some (Entries.assignAll done later) := by
  induction later generalizing done with
  | nil => rfl
  | cons entry rest ih =>
    rw [Datum.ofEntries, entries?, h entry (List.mem_cons_self ..)]
    exact ih (fun other hother ↦ h other (List.mem_cons_of_mem _ hother)) _

theorem values?_ofItems {vs : List Value} (h : ∀ v ∈ vs, value? (Datum.ofValue v) = some v) :
    values? (Datum.ofItems vs) = some vs := by
  induction vs with
  | nil => rfl
  | cons v rest ih =>
    rw [Datum.ofItems, values?, h v (List.mem_cons_self ..),
      ih fun other hother ↦ h other (List.mem_cons_of_mem _ hother)]
    rfl

/-- A mapping of settled entries is read from its own datum. -/
theorem Settled.value? {entries : Entries Value} (h : Settled entries) :
    value? (Datum.ofValue (.mapping entries)) = some (.mapping entries) := by
  rw [Datum.ofValue, Document.value?, entries?_ofEntries h.2, Entries.assignAll_of_inOrder h.1]
  rfl

theorem ofNat_ne_nan (n : Nat) : Number.ofNat n ≠ .nan := by
  unfold Number.ofNat Number.ofInt Number.ofQuotient
  split <;> simp

theorem value?_text (t : Text) : value? (Datum.ofValue (.text t)) = some (.text t) := rfl

theorem value?_number {x : Number} (h : x ≠ .nan) :
    value? (Datum.ofValue (.number x)) = some (.number x) := if_neg h

theorem value?_sequence {vs : List Value} (h : ∀ v ∈ vs, value? (Datum.ofValue v) = some v) :
    value? (Datum.ofValue (.sequence vs)) = some (.sequence vs) := by
  rw [Datum.ofValue, value?, values?_ofItems h]
  rfl

theorem value?_texts (ts : List Text) :
    value? (Datum.ofValue (.sequence (ts.map .text))) = some (.sequence (ts.map .text)) :=
  value?_sequence fun v hv ↦ by
    obtain ⟨t, -, rfl⟩ := List.mem_map.mp hv
    exact value?_text t

theorem settled_octetEntries (octets : List UInt8) : Settled (Datum.octetEntries octets) := by
  refine ⟨?_, fun entry hentry ↦ ?_⟩
  · have hkeys : Entries.keys (Datum.octetEntries octets) =
        (List.range octets.length).map Text.ofNat :=
      List.ext_getElem (by simp [Entries.keys, Datum.octetEntries]) fun index _ _ ↦ by
        simp [Entries.keys, Datum.octetEntries]
    rw [Entries.InOrder, hkeys]
    exact Entries.keysInOrder_indexes octets.length
  · obtain ⟨index, hindex, rfl⟩ := List.mem_mapIdx.mp hentry
    exact value?_number (ofNat_ne_nan _)

theorem inOrder_failure (f : Failure) : Entries.InOrder f.entries := by
  cases f with
  | fault f =>
    cases f with
    | validation issues => exact .of_keys ["name", "kind", "issues"] rfl (by decide)
    | unresolved reference => exact .of_keys ["name", "kind", "reference"] rfl (by decide)
    | template source flaw => exact .of_keys ["name", "kind", "template"] rfl (by decide)
    | exhausted step attempts last =>
      exact .of_keys ["name", "kind", "stepName", "attempts"] rfl (by decide)
    | mismatch _ | execution _ _ | timeout _ _ | cancelled _ =>
      exact .of_keys ["name", "kind"] rfl (by decide)
  | configuration issues => exact .of_keys ["issues", "name"] rfl (by decide)
  | runtime kind message => exact Entries.inOrder_nil
  | plain name message =>
    cases name with
    | none => exact Entries.inOrder_nil
    | some name => exact .of_keys ["name"] rfl (by decide)

theorem settled_failure (f : Failure) : Settled f.entries := by
  refine ⟨inOrder_failure f, ?_⟩
  cases f with
  | fault f =>
    cases f <;> simp [Failure.entries, Fault.details, Number.ofCount, value?_text, value?_texts,
      value?_number (ofNat_ne_nan _)]
  | configuration issues => simp [Failure.entries, value?_text, value?_texts]
  | runtime kind message => simp [Failure.entries]
  | plain name message => cases name <;> simp [Failure.entries, value?_text]

mutual

/-- A value that was read is read from its own datum again. -/
theorem value?_again (d : Datum) {v : Value} (h : value? d = some v) :
    value? (Datum.ofValue v) = some v := by
  cases d with
  | null | bool b | text t =>
    obtain rfl := Option.some.inj h
    rfl
  | number x =>
    by_cases hx : x = .nan
    · simp [value?, hx] at h
    · rw [value?, if_neg hx] at h
      obtain rfl := Option.some.inj h
      exact value?_number hx
  | sequence items =>
    obtain ⟨vs, hvs, heq⟩ := Option.bind_eq_some_iff.mp h
    obtain rfl := Option.some.inj heq
    exact value?_sequence (values?_again items hvs)
  | object own inherited =>
    obtain ⟨first, hfirst, hrest⟩ := Option.bind_eq_some_iff.mp h
    obtain ⟨entries, hentries, heq⟩ := Option.bind_eq_some_iff.mp hrest
    obtain rfl := Option.some.inj heq
    have hsettled : Settled first := settled_entries own settled_nil hfirst
    exact (settled_entriesBehind own inherited hsettled hentries).value?
  | bytes octets | buffer octets =>
    obtain rfl := Option.some.inj h
    exact (settled_octetEntries octets).value?
  | pattern source =>
    obtain rfl := Option.some.inj h
    exact settled_nil.value?
  | failure f =>
    obtain rfl := Option.some.inj h
    exact (settled_failure f).value?
  | absent | integer _ | symbol _ | function | date _ | map | set => simp [value?] at h

theorem values?_again (ds : List Datum) {vs : List Value} (h : values? ds = some vs) :
    ∀ v ∈ vs, value? (Datum.ofValue v) = some v := by
  cases ds with
  | nil =>
    obtain rfl := Option.some.inj h
    simp
  | cons d rest =>
    obtain ⟨first, hfirst, hrest⟩ := Option.bind_eq_some_iff.mp h
    obtain ⟨others, hothers, heq⟩ := Option.bind_eq_some_iff.mp hrest
    obtain rfl := Option.some.inj heq
    exact List.forall_mem_cons.mpr ⟨value?_again d hfirst, values?_again rest hothers⟩

theorem settled_entries (members : List (Text × Datum)) {done entries : Entries Value}
    (hdone : Settled done) (h : entries? done members = some entries) : Settled entries := by
  cases members with
  | nil =>
    obtain rfl := Option.some.inj h
    exact hdone
  | cons member rest =>
    obtain ⟨key, x⟩ := member
    obtain ⟨v, hv, hrest⟩ := Option.bind_eq_some_iff.mp h
    exact settled_entries rest (hdone.assign (value?_again x hv)) hrest

theorem settled_entriesBehind (own members : List (Text × Datum)) {done entries : Entries Value}
    (hdone : Settled done) (h : entriesBehind? done own members = some entries) :
    Settled entries := by
  cases members with
  | nil =>
    obtain rfl := Option.some.inj h
    exact hdone
  | cons member rest =>
    obtain ⟨key, x⟩ := member
    obtain ⟨v, hv, hrest⟩ := Option.bind_eq_some_iff.mp h
    split at hrest
    · exact settled_entriesBehind own rest hdone hrest
    · exact settled_entriesBehind own rest (hdone.assign (value?_again x hv)) hrest

end

end Document

end BrowserFlow
