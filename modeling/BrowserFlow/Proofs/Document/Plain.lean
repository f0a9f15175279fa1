import BrowserFlow.Proofs.Document.Written
import Mathlib.Data.List.Forall2
import Mathlib.Data.List.Nodup

/-!
Plain data that is kept. A datum is kept as a value when the value has all of it
and nothing else: scalars are the same, the items of a sequence stand in their
places, and the entries of a mapping stand under their keys in their order, but
for those under the ancestor's key (`Datum.KeptAs`). An object that is no plain
mapping, such as octets, can at most be kept as the mapping of the entries that it
lists. What is read from plain data is kept (`Document.keptAs_of_value?`), by
induction on the datum: entries that stand side by side with those of an object
still do when both are assigned one after the other (`Entries.Beside.assignAll`).
-/

set_option autoImplicit false
set_option relaxedAutoImplicit false

namespace BrowserFlow

/-! ### Entries side by side -/

namespace Entries

variable {α β : Type} {R : α → β → Prop} {entries : Entries α} {others : Entries β}

/-- Entries with the same keys in the same order, and with values that are related. -/
def Beside (R : α → β → Prop) (entries : Entries α) (others : Entries β) : Prop :=
  List.Forall₂ (fun entry other ↦ entry.1 = other.1 ∧ R entry.2 other.2) entries others

namespace Beside

theorem keys_eq (h : Beside R entries others) : keys entries = keys others := by
  induction h with
  | nil => rfl
  | cons hfirst _ ih => exact congrArg₂ List.cons hfirst.1 ih

theorem has_eq (h : Beside R entries others) (key : Text) : entries.has key = others.has key := by
  rw [Bool.eq_iff_iff, has_eq_true_iff, has_eq_true_iff, h.keys_eq]

/-- Each entry stands beside one with its key. -/
theorem exists_mem (h : Beside R entries others) {key : Text} {b : β} (hmem : (key, b) ∈ others) :
    ∃ a, (key, a) ∈ entries ∧ R a b := by
  induction h with
  | nil => cases hmem
  | @cons entry other _ _ hfirst _ ih =>
    rcases List.mem_cons.mp hmem with rfl | hrest
    · obtain ⟨name, a⟩ := entry
      obtain ⟨rfl, hrelated⟩ := hfirst
      exact ⟨a, .head _, hrelated⟩
    · obtain ⟨a, ha, hrelated⟩ := ih hrest
      exact ⟨a, .tail _ ha, hrelated⟩

theorem append {later : Entries α} {laterOthers : Entries β} (h : Beside R entries others)
    (hlater : Beside R later laterOthers) : Beside R (entries ++ later) (others ++ laterOthers) :=
  List.rel_append h hlater

theorem insert (h : Beside R entries others) (key : Text) {a : α} {b : β} (hab : R a b) :
    Beside R (insert key a entries) (insert key b others) := by
  induction h with
  | nil => exact .cons ⟨rfl, hab⟩ .nil
  | @cons entry other rest otherRest hfirst hrest ih =>
    rw [Entries.insert, Entries.insert, hfirst.1]
    by_cases hbefore : goesBefore key other.1 = true
    · rw [if_pos hbefore, if_pos hbefore]
      exact .cons ⟨rfl, hab⟩ (.cons ⟨rfl, hfirst.2⟩ hrest)
    · rw [if_neg hbefore, if_neg hbefore]
      exact .cons ⟨rfl, hfirst.2⟩ ih

theorem replace (h : Beside R entries others) (key : Text) {a : α} {b : β} (hab : R a b) :
    Beside R (replace key a entries) (replace key b others) := by
  induction h with
  | nil => exact .nil
  | @cons entry other rest otherRest hfirst hrest ih =>
    rw [Entries.replace, Entries.replace, hfirst.1]
    by_cases hname : other.1 = key
    · rw [if_pos hname, if_pos hname]
      exact .cons ⟨rfl, hab⟩ hrest
    · rw [if_neg hname, if_neg hname]
      exact .cons ⟨rfl, hfirst.2⟩ ih

theorem assign (h : Beside R entries others) (key : Text) {a : α} {b : β} (hab : R a b) :
    Beside R (entries.assign key a) (others.assign key b) := by
  unfold Entries.assign put
  rw [h.has_eq key]
  split
  · exact h
  · split
    · exact h.replace key hab
    · exact h.insert key hab

/-- Entries side by side that are assigned to others side by side. -/
theorem assignAll {later : Entries α} {laterOthers : Entries β} (h : Beside R entries others)
    (hlater : Beside R later laterOthers) :
    Beside R (assignAll entries later) (assignAll others laterOthers) := by
  induction hlater generalizing entries others with
  | nil => exact h
  | @cons entry other _ _ hfirst _ ih =>
    obtain ⟨key, a⟩ := entry
    obtain ⟨rfl, hrelated⟩ := hfirst
    exact ih (h.assign other.1 hrelated)

end Beside

/-- Changed values stand beside those that they were. -/
theorem beside_eq_iff {f : α → β} :
    Beside (fun a b ↦ f a = b) entries others ↔
      entries.map (fun (key, a) ↦ (key, f a)) = others := by
  rw [← List.forall₂_eq_eq_eq, List.forall₂_map_left_iff, Beside]
  simp only [Prod.ext_iff]

/-- Changed values are assigned as those that they were. -/
theorem assignAll_map (f : α → β) (entries : Entries α) :
    assignAll [] (entries.map fun (key, a) ↦ (key, f a)) =
      (assignAll [] entries).map fun (key, a) ↦ (key, f a) :=
  (beside_eq_iff.mp (Beside.assignAll .nil (beside_eq_iff.mpr rfl))).symm

/-- Whether entries stand in the order in which an object has its own. It has at most one of them
under the ancestor's key, but that may stand anywhere. -/
def areInOrder (entries : Entries α) : Bool :=
  decide (KeysInOrder ((keys entries).filter (· ≠ ancestorKey)))

theorem keys_filter (entries : Entries α) (test : Text → Bool) :
    keys (entries.filter fun entry ↦ test entry.1) = (keys entries).filter test := by
  rw [keys, keys, List.filter_map]
  rfl

theorem assignAll_filter (done entries : Entries α) :
    assignAll done (entries.filter fun entry ↦ entry.1 ≠ ancestorKey) = assignAll done entries := by
  induction entries generalizing done with
  | nil => rfl
  | cons entry rest ih =>
    by_cases hkey : entry.1 = ancestorKey
    · have hpassed : done.assign entry.1 entry.2 = done := if_pos hkey
      rw [List.filter_cons_of_neg (by simpa using hkey), ih]
      exact congrArg (assignAll · rest) hpassed.symm
    · rw [List.filter_cons_of_pos (by simpa using hkey)]
      exact ih _

/-- What an object has is assigned in its order, but for what stands under the ancestor's key. -/
theorem assignAll_of_areInOrder (h : entries.areInOrder = true) :
    assignAll [] entries = entries.filter fun entry ↦ entry.1 ≠ ancestorKey := by
  have hinorder : InOrder (entries.filter fun entry ↦ entry.1 ≠ ancestorKey) := by
    rw [InOrder, keys_filter entries fun key ↦ decide (key ≠ ancestorKey)]
    exact of_decide_eq_true h
  rw [← assignAll_filter, assignAll_of_inOrder hinorder]

/-- What stands under another key than the ancestor's, and nothing else stands there. -/
theorem eq_of_mem {key : Text} {a b : α} (hkey : key ≠ ancestorKey)
    (h : ((keys entries).filter (· ≠ ancestorKey)).Nodup) (ha : (key, a) ∈ entries)
    (hb : (key, b) ∈ entries) : a = b := by
  rw [← keys_filter entries fun key ↦ decide (key ≠ ancestorKey)] at h
  have hinjective := List.inj_on_of_nodup_map h
  have hkept : ∀ {c : α}, (key, c) ∈ entries →
      (key, c) ∈ entries.filter fun entry ↦ decide (entry.1 ≠ ancestorKey) := fun hc ↦
    List.mem_filter.mpr ⟨hc, decide_eq_true hkey⟩
  exact (Prod.mk.inj (hinjective (hkept ha) (hkept hb) rfl)).2

end Entries

namespace Datum

/-! ### Ordered data -/

mutual

/-- Whether the objects in a datum, at every depth, have their entries in the order of objects. -/
def isOrdered : Datum → Bool
  | .sequence items => areOrdered items
  | .object own inherited =>
    Entries.areInOrder own && areOrderedEntries own
      && (Entries.areInOrder inherited && areOrderedEntries inherited)
  | _ => true

/-- Whether the objects in some items have their entries in order. -/
def areOrdered : List Datum → Bool
  | [] => true
  | item :: rest => isOrdered item && areOrdered rest

/-- Whether the objects below some entries have their entries in order. -/
def areOrderedEntries : List (Text × Datum) → Bool
  | [] => true
  | (_, x) :: rest => isOrdered x && areOrderedEntries rest

end

theorem isOrdered_sequence {items : List Datum} :
    (sequence items).isOrdered = true ↔ ∀ item ∈ items, item.isOrdered = true := by
  rw [isOrdered]
  induction items with
  | nil => simp [areOrdered]
  | cons item rest ih => rw [areOrdered, Bool.and_eq_true, ih, List.forall_mem_cons]

theorem areOrderedEntries_iff {entries : Entries Datum} :
    areOrderedEntries entries = true ↔ ∀ entry ∈ entries, entry.2.isOrdered = true := by
  induction entries with
  | nil => simp [areOrderedEntries]
  | cons entry rest ih => rw [areOrderedEntries, Bool.and_eq_true, ih, List.forall_mem_cons]

theorem isOrdered_object {own inherited : Entries Datum} :
    (object own inherited).isOrdered = true ↔
      (Entries.areInOrder own = true ∧ areOrderedEntries own = true) ∧
        Entries.areInOrder inherited = true ∧ areOrderedEntries inherited = true := by
  rw [isOrdered, Bool.and_eq_true, Bool.and_eq_true, Bool.and_eq_true]

theorem isOrdered_member {d : Datum} (h : d.isOrdered = true) (key : Text) :
    (d.member key).isOrdered = true := by
  cases d with
  | object own inherited =>
    obtain ⟨⟨-, hown⟩, -, hinherited⟩ := isOrdered_object.mp h
    have hfound : ∀ {entries : Entries Datum} {x : Datum}, areOrderedEntries entries = true →
        Entries.find? entries key = some x → x.isOrdered = true := fun hentries hx ↦
      areOrderedEntries_iff.mp hentries _ (Entries.mem_of_find? hx)
    rw [member]
    cases hx : Entries.find? own key with
    | some x => exact hfound hown hx
    | none =>
      cases hy : Entries.find? inherited key with
      | some y => exact hfound hinherited hy
      | none => rfl
  | _ => rfl

theorem isOrdered_texts (ts : List Text) :
    (ofValue (.sequence (ts.map .text))).isOrdered = true := by
  rw [ofValue, ofItems_eq_map]
  refine isOrdered_sequence.mpr fun x hx ↦ ?_
  obtain ⟨v, hv, rfl⟩ := List.mem_map.mp hx
  obtain ⟨t, -, rfl⟩ := List.mem_map.mp hv
  rfl

theorem isOrdered_failure (f : Failure) : ∀ entry ∈ f.entries, (ofValue entry.2).isOrdered = true := by
  have htext : ∀ t, (ofValue (.text t)).isOrdered = true := fun _ ↦ rfl
  have hnumber : ∀ x, (ofValue (.number x)).isOrdered = true := fun _ ↦ rfl
  cases f with
  | fault f => cases f <;> simp [Failure.entries, Fault.details, htext, hnumber, isOrdered_texts]
  | configuration issues => simp [Failure.entries, htext, isOrdered_texts]
  | runtime kind message => simp [Failure.entries]
  | plain name message => cases name <;> simp [Failure.entries, htext]

/-- What an object lists is as ordered as the object. -/
theorem isOrdered_listed {d : Datum} (hobject : d.isObject = true) (h : d.isOrdered = true) :
    ∀ entry ∈ d.listed, entry.2.isOrdered = true := by
  have hwritten : ∀ {entries : Entries Value},
      (∀ entry ∈ entries, (ofValue entry.2).isOrdered = true) →
      ∀ entry ∈ ofEntries entries, entry.2.isOrdered = true := by
    intro entries hentries entry hentry
    rw [ofEntries_eq_map] at hentry
    obtain ⟨written, hmem, rfl⟩ := List.mem_map.mp hentry
    exact hentries written hmem
  have hoctets : ∀ octets : List UInt8, ∀ entry ∈ octetEntries octets,
      (ofValue entry.2).isOrdered = true := by
    intro octets entry hentry
    obtain ⟨index, hindex, rfl⟩ := List.mem_mapIdx.mp hentry
    rfl
  cases d with
  | bytes octets | buffer octets => exact hwritten (hoctets octets)
  | failure f => exact hwritten (isOrdered_failure f)
  | pattern source => exact fun entry hentry ↦ absurd hentry List.not_mem_nil
  | object own inherited =>
    obtain ⟨⟨-, hown⟩, -, hinherited⟩ := isOrdered_object.mp h
    intro entry hentry
    rcases List.mem_append.mp hentry with hbefore | hbehind
    · exact areOrderedEntries_iff.mp hown entry hbefore
    · exact areOrderedEntries_iff.mp hinherited entry (List.mem_filter.mp hbehind).1
  | _ => cases hobject

/-! ### Data that is kept -/

/-- Whether a datum is a mapping that inherits nothing. -/
def isPlainMapping : Datum → Bool
  | .object _ [] => true
  | _ => false

/-- A datum that is kept as a value, scalars as they are and sequences and mappings in their order,
where nothing stands under the ancestor's key any more. Where listings are admitted, an object that
is no plain mapping is kept as the mapping of what it lists. -/
inductive KeptAs (listings : Bool) : Datum → Value → Prop
  | null : KeptAs listings .null .null
  | bool (b : Bool) : KeptAs listings (.bool b) (.bool b)
  | number (x : Number) : KeptAs listings (.number x) (.number x)
  | text (t : Text) : KeptAs listings (.text t) (.text t)
  | sequence {items : List Datum} {values : List Value}
      (hitems : List.Forall₂ (KeptAs listings) items values) :
      KeptAs listings (.sequence items) (.sequence values)
  | mapping {own : Entries Datum} {entries : Entries Value}
      (hkeys : Entries.keys entries = (Entries.keys own).filter (· ≠ Entries.ancestorKey))
      (hentries : ∀ key x v, (key, x) ∈ own → (key, v) ∈ entries → KeptAs listings x v) :
      KeptAs listings (.object own []) (.mapping entries)
  | listing {d : Datum} {entries : Entries Value} (hlistings : listings = true)
      (hobject : d.isObject = true) (hplain : d.isPlainMapping = false)
      (hkeys : Entries.keys entries = Entries.keys (Entries.assignAll [] d.listed))
      (hentries : ∀ key x v, (key, x) ∈ d.listed → (key, v) ∈ entries → KeptAs listings x v) :
      KeptAs listings d (.mapping entries)

variable {listings : Bool}

/-- What is assigned from entries is among them, and nothing else is under its key. -/
theorem kept_entries {members : Entries Datum} {entries : Entries Value}
    (hnodup : ((Entries.keys members).filter (· ≠ Entries.ancestorKey)).Nodup)
    (h : Entries.Beside (KeptAs listings) (Entries.assignAll [] members) entries) :
    ∀ key x v, (key, x) ∈ members → (key, v) ∈ entries → KeptAs listings x v := by
  intro key x v hx hv
  obtain ⟨y, hy, hkept⟩ := h.exists_mem hv
  have hinorder : Entries.InOrder (Entries.assignAll [] members) :=
    Entries.inOrder_nil.assignAll members
  have hmember : (key, y) ∈ members := (Entries.mem_assignAll hy).resolve_left (by simp)
  rwa [Entries.eq_of_mem (hinorder.ne_ancestorKey hy) hnodup hx hmember]

theorem keptAs_mapping {own : Entries Datum} {entries : Entries Value}
    (horder : Entries.areInOrder own = true)
    (h : Entries.Beside (KeptAs listings) (Entries.assignAll [] own) entries) :
    KeptAs listings (.object own []) (.mapping entries) := by
  refine .mapping ?_ (kept_entries (of_decide_eq_true horder).nodup h)
  rw [← h.keys_eq, Entries.assignAll_of_areInOrder horder,
    Entries.keys_filter own fun key ↦ decide (key ≠ Entries.ancestorKey)]

theorem keys_ofEntries (entries : Entries Value) :
    Entries.keys (ofEntries entries) = Entries.keys entries := by
  rw [ofEntries_eq_map, Entries.keys, Entries.keys, List.map_map]
  rfl

/-- The keys that an object lists are distinct. -/
theorem nodup_listed {d : Datum} (hobject : d.isObject = true) (h : d.isOrdered = true) :
    ((Entries.keys d.listed).filter (· ≠ Entries.ancestorKey)).Nodup := by
  have hwritten : ∀ {entries : Entries Value}, Entries.InOrder entries →
      ((Entries.keys (ofEntries entries)).filter (· ≠ Entries.ancestorKey)).Nodup := fun hin ↦ by
    rw [keys_ofEntries]
    exact hin.nodup.filter _
  cases d with
  | bytes octets | buffer octets => exact hwritten (Document.settled_octetEntries octets).1
  | failure f => exact hwritten (Document.inOrder_failure f)
  | pattern source => exact List.nodup_nil
  | object own inherited =>
    obtain ⟨⟨hown, -⟩, hinherited, -⟩ := isOrdered_object.mp h
    have hbehind := Entries.keys_filter inherited fun key ↦ !Entries.has own key
    have hkeys : Entries.keys (object own inherited).listed = Entries.keys own ++
        (Entries.keys inherited).filter fun key ↦ !Entries.has own key := by
      rw [← hbehind]
      exact List.map_append
    rw [hkeys, List.filter_append, List.filter_comm]
    refine List.nodup_append.mpr ⟨(of_decide_eq_true hown).nodup,
      (of_decide_eq_true hinherited).nodup.filter _, ?_⟩
    rintro key hbefore _ hafter rfl
    have hhas := (Entries.has_eq_true_iff own key).mpr (List.mem_filter.mp hbefore).1
    have hnot := (List.mem_filter.mp hafter).2
    rw [hhas] at hnot
    cases hnot
  | _ => cases hobject

/-- An object is kept as the mapping of what it lists when all of that is kept. -/
theorem keptAs_of_listed {d : Datum} {pairs : Entries Value} (hobject : d.isObject = true)
    (hordered : d.isOrdered = true) (h : Entries.Beside (KeptAs true) d.listed pairs) :
    KeptAs true d (.mapping (Entries.assignAll [] pairs)) := by
  have hassigned : Entries.Beside (KeptAs true) (Entries.assignAll [] d.listed)
      (Entries.assignAll [] pairs) := Entries.Beside.assignAll .nil h
  cases hplain : d.isPlainMapping with
  | false =>
    exact .listing rfl hobject hplain hassigned.keys_eq.symm
      (kept_entries (nodup_listed hobject hordered) hassigned)
  | true =>
    obtain ⟨own, rfl⟩ : ∃ own, d = .object own [] := by
      unfold isPlainMapping at hplain
      split at hplain
      · exact ⟨_, rfl⟩
      · cases hplain
    have hlisted : (object own []).listed = own := List.append_nil own
    rw [hlisted] at hassigned
    exact keptAs_mapping (isOrdered_object.mp hordered).1.1 hassigned

theorem keptAs_texts (ts : List Text) :
    KeptAs listings (ofValue (.sequence (ts.map .text))) (.sequence (ts.map .text)) := by
  rw [ofValue, ofItems_eq_map]
  refine .sequence ?_
  rw [List.forall₂_map_left_iff, List.forall₂_same]
  intro v hv
  obtain ⟨t, -, rfl⟩ := List.mem_map.mp hv
  exact .text t

/-- An object that lists entries in order is kept as their mapping. -/
theorem keptAs_of_listed_ofEntries {d : Datum} {entries : Entries Value}
    (hobject : d.isObject = true) (hordered : d.isOrdered = true)
    (hlisted : d.listed = ofEntries entries) (horder : Entries.InOrder entries)
    (h : ∀ entry ∈ entries, KeptAs true (ofValue entry.2) entry.2) :
    KeptAs true d (.mapping entries) := by
  have hpairs : Entries.Beside (KeptAs true) (ofEntries entries) entries := by
    rw [Entries.Beside, ofEntries_eq_map, List.forall₂_map_left_iff, List.forall₂_same]
    exact fun entry hentry ↦ ⟨rfl, h entry hentry⟩
  have hkept := keptAs_of_listed hobject hordered (hlisted ▸ hpairs)
  rwa [Entries.assignAll_of_inOrder horder] at hkept

theorem keptAs_octets {d : Datum} {octets : List UInt8} (hobject : d.isObject = true)
    (hordered : d.isOrdered = true) (hlisted : d.listed = ofEntries (octetEntries octets)) :
    KeptAs true d (.mapping (octetEntries octets)) := by
  refine keptAs_of_listed_ofEntries hobject hordered hlisted
    (Document.settled_octetEntries octets).1 fun entry hentry ↦ ?_
  obtain ⟨index, hindex, rfl⟩ := List.mem_mapIdx.mp hentry
  exact .number _

theorem keptAs_failure (f : Failure) : KeptAs true (.failure f) (.mapping f.entries) := by
  have htext : ∀ t, KeptAs true (ofValue (.text t)) (.text t) := .text
  have hnumber : ∀ x, KeptAs true (ofValue (.number x)) (.number x) := .number
  refine keptAs_of_listed_ofEntries rfl rfl rfl (Document.inOrder_failure f) ?_
  cases f with
  | fault f => cases f <;> simp [Failure.entries, Fault.details, htext, hnumber, keptAs_texts]
  | configuration issues => simp [Failure.entries, htext, keptAs_texts]
  | runtime kind message => simp [Failure.entries]
  | plain name message => cases name <;> simp [Failure.entries, htext]

end Datum

/-! ### What is read -/

namespace Document

open Datum

mutual

/-- Plain data is kept as the value that is read from it. -/
theorem keptAs_of_value? (d : Datum) {v : Value} (hordered : d.isOrdered = true)
    (h : value? d = some v) : d.KeptAs true v := by
  cases d with
  | null =>
    obtain rfl := Option.some.inj h
    exact .null
  | bool b =>
    obtain rfl := Option.some.inj h
    exact .bool b
  | text t =>
    obtain rfl := Option.some.inj h
    exact .text t
  | number x =>
    by_cases hx : x = .nan
    · simp [value?, hx] at h
    · rw [value?, if_neg hx] at h
      obtain rfl := Option.some.inj h
      exact .number x
  | sequence items =>
    obtain ⟨vs, hvs, heq⟩ := Option.bind_eq_some_iff.mp h
    obtain rfl := Option.some.inj heq
    rw [isOrdered] at hordered
    exact .sequence (forall₂_of_values? items hordered hvs)
  | object own inherited =>
    obtain ⟨first, hfirst, hrest⟩ := Option.bind_eq_some_iff.mp h
    obtain ⟨entries, hentries, heq⟩ := Option.bind_eq_some_iff.mp hrest
    obtain rfl := Option.some.inj heq
    obtain ⟨⟨-, hown⟩, -, hinherited⟩ := isOrdered_object.mp hordered
    obtain ⟨pairs, hpairs, rfl⟩ := beside_of_entries? own hown hfirst
    obtain ⟨others, hothers, rfl⟩ := beside_of_entriesBehind? own inherited hinherited hentries
    have hkept := keptAs_of_listed rfl hordered (hpairs.append hothers)
    rwa [Entries.assignAll, List.foldl_append] at hkept
  | bytes octets | buffer octets =>
    obtain rfl := Option.some.inj h
    exact keptAs_octets rfl rfl rfl
  | pattern source =>
    obtain rfl := Option.some.inj h
    exact keptAs_of_listed (d := .pattern source) rfl rfl .nil
  | failure f =>
    obtain rfl := Option.some.inj h
    exact keptAs_failure f
  | absent | integer _ | symbol _ | function | date _ | map | set => simp [value?] at h

theorem forall₂_of_values? (ds : List Datum) {vs : List Value} (hordered : areOrdered ds = true)
    (h : values? ds = some vs) : List.Forall₂ (KeptAs true) ds vs := by
  cases ds with
  | nil =>
    obtain rfl := Option.some.inj h
    exact .nil
  | cons d rest =>
    obtain ⟨first, hfirst, hrest⟩ := Option.bind_eq_some_iff.mp h
    obtain ⟨others, hothers, heq⟩ := Option.bind_eq_some_iff.mp hrest
    obtain rfl := Option.some.inj heq
    rw [areOrdered, Bool.and_eq_true] at hordered
    exact .cons (keptAs_of_value? d hordered.1 hfirst)
      (forall₂_of_values? rest hordered.2 hothers)

theorem beside_of_entries? (members : List (Text × Datum)) {done entries : Entries Value}
    (hordered : areOrderedEntries members = true) (h : entries? done members = some entries) :
    ∃ pairs, Entries.Beside (KeptAs true) members pairs ∧
      Entries.assignAll done pairs = entries := by
  cases members with
  | nil =>
    obtain rfl := Option.some.inj h
    exact ⟨[], .nil, rfl⟩
  | cons member rest =>
    obtain ⟨key, x⟩ := member
    obtain ⟨v, hv, hrest⟩ := Option.bind_eq_some_iff.mp h
    rw [areOrderedEntries, Bool.and_eq_true] at hordered
    obtain ⟨pairs, hpairs, rfl⟩ := beside_of_entries? rest hordered.2 hrest
    exact ⟨(key, v) :: pairs, .cons ⟨rfl, keptAs_of_value? x hordered.1 hv⟩ hpairs, rfl⟩

theorem beside_of_entriesBehind? (own members : List (Text × Datum)) {done entries : Entries Value}
    (hordered : areOrderedEntries members = true)
    (h : entriesBehind? done own members = some entries) :
    ∃ pairs, Entries.Beside (KeptAs true) (members.filter fun (key, _) ↦ !Entries.has own key)
      pairs ∧ Entries.assignAll done pairs = entries := by
  cases members with
  | nil =>
    obtain rfl := Option.some.inj h
    exact ⟨[], .nil, rfl⟩
  | cons member rest =>
    obtain ⟨key, x⟩ := member
    obtain ⟨v, hv, hrest⟩ := Option.bind_eq_some_iff.mp h
    rw [areOrderedEntries, Bool.and_eq_true] at hordered
    by_cases hhas : Entries.has own key = true
    · rw [if_pos hhas] at hrest
      rw [List.filter_cons_of_neg (by simp [hhas])]
      exact beside_of_entriesBehind? own rest hordered.2 hrest
    · rw [if_neg hhas] at hrest
      rw [List.filter_cons_of_pos (by simpa using hhas)]
      obtain ⟨pairs, hpairs, rfl⟩ := beside_of_entriesBehind? own rest hordered.2 hrest
      exact ⟨(key, v) :: pairs, .cons ⟨rfl, keptAs_of_value? x hordered.1 hv⟩ hpairs, rfl⟩

end

end Document

end BrowserFlow
