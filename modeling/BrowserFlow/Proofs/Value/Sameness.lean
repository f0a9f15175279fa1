import BrowserFlow.Proofs.Value.Ordered
import BrowserFlow.Value.Equality
import Mathlib.Data.List.Perm.Subperm

/-!
Sameness of values is an equivalence. A value is the same as itself (`Value.same_self`), sameness is
symmetric (`Value.same_symm`) and transitive (`Value.same_trans`), whatever numbers the values hold.
The keys of a mapping have to be unique for that, at every depth (`Value.hasUniqueKeys`), as they
are in every mapping that is built entry by entry (`Value.hasUniqueKeys_of_isOrdered`).
-/

set_option autoImplicit false
set_option relaxedAutoImplicit false

namespace BrowserFlow

/-! ### Entries under unique keys -/

namespace Entries

variable {α : Type} {entries first second : Entries α} {key : Text} {value : α}

theorem mem_keys_of_mem (h : (key, value) ∈ entries) : key ∈ keys entries :=
  List.mem_map.mpr ⟨(key, value), h, rfl⟩

/-- Under unique keys every entry is found. -/
theorem find?_of_mem (hkeys : (keys entries).Nodup) (h : (key, value) ∈ entries) :
    entries.find? key = some value := by
  induction entries with
  | nil => cases h
  | cons head rest ih =>
    obtain ⟨name, old⟩ := head
    obtain ⟨hnew, hrest⟩ := List.nodup_cons.mp hkeys
    rcases List.mem_cons.mp h with heq | hmem
    · obtain ⟨rfl, rfl⟩ := Prod.mk.inj heq
      exact if_pos rfl
    · have hne : name ≠ key := by
        rintro rfl
        exact hnew (mem_keys_of_mem hmem)
      rw [find?, if_neg hne, ih hrest hmem]

/-- Unique keys that are all among as many others are all of them. -/
theorem keys_subset_of_subset (hkeys : (keys first).Nodup) (hlength : first.length = second.length)
    (h : keys first ⊆ keys second) : keys second ⊆ keys first := by
  have hperm : (keys first).Perm (keys second) := by
    refine (List.subperm_of_subset hkeys h).perm_of_length_le ?_
    rw [keys, keys, List.length_map, List.length_map, hlength]
  exact hperm.symm.subset

end Entries

namespace Value

/-! ### Induction over values -/

mutual

/-- What holds of a value when it holds of its items, or of what is under its keys, holds of every
value. -/
@[elab_as_elim]
theorem nestedInduction {motive : Value → Prop} (null : motive .null)
    (bool : ∀ b, motive (.bool b)) (number : ∀ x, motive (.number x))
    (text : ∀ t, motive (.text t))
    (sequence : ∀ items, (∀ item ∈ items, motive item) → motive (.sequence items))
    (mapping : ∀ entries : List (Text × Value), (∀ entry ∈ entries, motive entry.2) →
      motive (.mapping entries)) (value : Value) : motive value := by
  cases value with
  | null => exact null
  | bool b => exact bool b
  | number x => exact number x
  | text t => exact text t
  | sequence items =>
    exact sequence items (nestedInduction_items null bool number text sequence mapping items)
  | mapping entries =>
    exact mapping entries (nestedInduction_entries null bool number text sequence mapping entries)
termination_by structural value

theorem nestedInduction_items {motive : Value → Prop} (null : motive .null)
    (bool : ∀ b, motive (.bool b)) (number : ∀ x, motive (.number x))
    (text : ∀ t, motive (.text t))
    (sequence : ∀ items, (∀ item ∈ items, motive item) → motive (.sequence items))
    (mapping : ∀ entries : List (Text × Value), (∀ entry ∈ entries, motive entry.2) →
      motive (.mapping entries)) (items : List Value) : ∀ item ∈ items, motive item := by
  cases items with
  | nil => exact fun _ h ↦ absurd h List.not_mem_nil
  | cons item rest =>
    exact List.forall_mem_cons.mpr
      ⟨nestedInduction null bool number text sequence mapping item,
        nestedInduction_items null bool number text sequence mapping rest⟩
termination_by structural items

theorem nestedInduction_entries {motive : Value → Prop} (null : motive .null)
    (bool : ∀ b, motive (.bool b)) (number : ∀ x, motive (.number x))
    (text : ∀ t, motive (.text t))
    (sequence : ∀ items, (∀ item ∈ items, motive item) → motive (.sequence items))
    (mapping : ∀ entries : List (Text × Value), (∀ entry ∈ entries, motive entry.2) →
      motive (.mapping entries)) (entries : List (Text × Value)) :
    ∀ entry ∈ entries, motive entry.2 := by
  cases entries with
  | nil => exact fun _ h ↦ absurd h List.not_mem_nil
  | cons entry rest =>
    exact List.forall_mem_cons.mpr
      ⟨nestedInduction null bool number text sequence mapping entry.2,
        nestedInduction_entries null bool number text sequence mapping rest⟩
termination_by structural entries

end

/-! ### Unique keys -/

mutual

/-- Whether no mapping of a value has a key twice, at any depth. -/
def hasUniqueKeys : Value → Bool
  | .sequence items => haveUniqueKeys items
  | .mapping entries =>
    decide (Entries.keys entries).Nodup && entriesHaveUniqueKeys entries
  | _ => true

/-- Whether no mapping of some items has a key twice. -/
def haveUniqueKeys : List Value → Bool
  | [] => true
  | item :: rest => hasUniqueKeys item && haveUniqueKeys rest

/-- Whether no mapping below some entries has a key twice. -/
def entriesHaveUniqueKeys : List (Text × Value) → Bool
  | [] => true
  | (_, value) :: rest => hasUniqueKeys value && entriesHaveUniqueKeys rest

end

theorem hasUniqueKeys_sequence {items : List Value} :
    (sequence items).hasUniqueKeys = true ↔ ∀ item ∈ items, item.hasUniqueKeys = true := by
  rw [hasUniqueKeys]
  induction items with
  | nil => simp [haveUniqueKeys]
  | cons item rest ih => rw [haveUniqueKeys, Bool.and_eq_true, ih, List.forall_mem_cons]

theorem hasUniqueKeys_mapping {entries : Entries Value} :
    (mapping entries).hasUniqueKeys = true ↔
      (Entries.keys entries).Nodup ∧ ∀ entry ∈ entries, entry.2.hasUniqueKeys = true := by
  have hbelow : ∀ others : List (Text × Value), entriesHaveUniqueKeys others = true ↔
      ∀ entry ∈ others, entry.2.hasUniqueKeys = true := by
    intro others
    induction others with
    | nil => simp [entriesHaveUniqueKeys]
    | cons entry rest ih =>
      rw [entriesHaveUniqueKeys, Bool.and_eq_true, ih, List.forall_mem_cons]
  rw [hasUniqueKeys, Bool.and_eq_true, decide_eq_true_eq, hbelow]

theorem isOrdered_of_mem {entries : List (Text × Value)} (h : areOrderedEntries entries = true)
    {entry : Text × Value} (hentry : entry ∈ entries) : entry.2.isOrdered = true := by
  induction entries with
  | nil => cases hentry
  | cons first rest ih =>
    obtain ⟨hfirst, hrest⟩ := Bool.and_eq_true_iff.mp h
    rcases List.mem_cons.mp hentry with rfl | hmem
    · exact hfirst
    · exact ih hrest hmem

/-- Keys in order are unique. -/
theorem hasUniqueKeys_of_isOrdered {value : Value} (h : value.isOrdered = true) :
    value.hasUniqueKeys = true := by
  induction value using nestedInduction with
  | null | bool | number | text => rfl
  | sequence items ih =>
    have hitems := isOrdered_sequence.mp h
    exact hasUniqueKeys_sequence.mpr fun item hitem ↦ ih item hitem (hitems item hitem)
  | mapping entries ih =>
    obtain ⟨hkeys, hentries⟩ := isOrdered_mapping.mp h
    refine hasUniqueKeys_mapping.mpr ⟨hkeys.nodup, fun entry hentry ↦ ih entry hentry ?_⟩
    exact isOrdered_of_mem hentries hentry

/-! ### What is the same as a value -/

variable {value a b c : Value}

theorem same_bool {x : Bool} : same (.bool x) value = true ↔ .bool x = value := by
  cases value <;> simp [same]

theorem same_number {x : Number} : same (.number x) value = true ↔ .number x = value := by
  cases value <;> simp [same]

theorem same_text {t : Text} : same (.text t) value = true ↔ .text t = value := by
  cases value <;> simp [same]

theorem sameItems_iff {xs ys : List Value} :
    sameItems xs ys = true ↔ xs.length = ys.length ∧
      ∀ (i : Nat) (x y : Value), xs[i]? = some x → ys[i]? = some y → same x y = true := by
  induction xs generalizing ys with
  | nil => cases ys <;> simp [sameItems]
  | cons x xs ih =>
    cases ys with
    | nil => simp [sameItems]
    | cons y ys =>
      rw [sameItems, Bool.and_eq_true, ih, List.length_cons, List.length_cons,
        Nat.add_right_cancel_iff]
      constructor
      · rintro ⟨hfirst, hlength, hrest⟩
        refine ⟨hlength, fun i v w hv hw ↦ ?_⟩
        cases i with
        | zero =>
          obtain rfl := Option.some.inj hv
          obtain rfl := Option.some.inj hw
          exact hfirst
        | succ i => exact hrest i v w hv hw
      · rintro ⟨hlength, hall⟩
        exact ⟨hall 0 x y rfl rfl, hlength, fun i v w hv hw ↦ hall (i + 1) v w hv hw⟩

/-- The same as a sequence is a sequence of as many items with the same item in every place. -/
theorem same_sequence {xs : List Value} :
    same (.sequence xs) value = true ↔ ∃ ys : List Value, value = .sequence ys ∧
      xs.length = ys.length ∧
      ∀ (i : Nat) (x y : Value), xs[i]? = some x → ys[i]? = some y → same x y = true := by
  cases value <;> simp [same, sameItems_iff]

theorem sameEntries_iff {xs ys : Entries Value} :
    sameEntries xs ys = true ↔
      ∀ key x, (key, x) ∈ xs → ∃ y, ys.find? key = some y ∧ same x y = true := by
  induction xs with
  | nil => simp [sameEntries]
  | cons entry rest ih =>
    rw [sameEntries, Bool.and_eq_true, ih]
    constructor
    · rintro ⟨hfirst, hrest⟩ key x hmem
      rcases List.mem_cons.mp hmem with rfl | hmem
      · cases hfound : ys.find? key with
        | some y => exact ⟨y, rfl, by simpa [hfound] using hfirst⟩
        | none => simp [hfound] at hfirst
      · exact hrest key x hmem
    · intro hall
      obtain ⟨y, hfound, hsame⟩ := hall entry.1 entry.2 (List.mem_cons_self ..)
      exact ⟨by simpa [hfound] using hsame,
        fun key x hmem ↦ hall key x (List.mem_cons_of_mem _ hmem)⟩

/-- The same as a mapping is a mapping of as many entries with the same value under every key. -/
theorem same_mapping {xs : Entries Value} :
    same (.mapping xs) value = true ↔ ∃ ys : Entries Value, value = .mapping ys ∧
      xs.length = ys.length ∧
      ∀ key x, (key, x) ∈ xs → ∃ y, ys.find? key = some y ∧ same x y = true := by
  cases value <;> simp [same, sameEntries_iff]

/-! ### Sameness is an equivalence -/

/-- A value is the same as itself. -/
theorem same_self (h : value.hasUniqueKeys = true) : same value value = true := by
  induction value using nestedInduction with
  | null => exact same_null.mpr rfl
  | bool => exact same_bool.mpr rfl
  | number => exact same_number.mpr rfl
  | text => exact same_text.mpr rfl
  | sequence items ih =>
    have hitems := hasUniqueKeys_sequence.mp h
    refine same_sequence.mpr ⟨items, rfl, rfl, fun i x y hx hy ↦ ?_⟩
    obtain rfl := Option.some.inj (hx.symm.trans hy)
    have hmem := List.mem_of_getElem? hx
    exact ih x hmem (hitems x hmem)
  | mapping entries ih =>
    obtain ⟨hkeys, hentries⟩ := hasUniqueKeys_mapping.mp h
    refine same_mapping.mpr ⟨entries, rfl, rfl, fun key x hmem ↦ ?_⟩
    exact ⟨x, Entries.find?_of_mem hkeys hmem, ih (key, x) hmem (hentries (key, x) hmem)⟩

/-- Sameness holds both ways. -/
theorem same_symm (ha : a.hasUniqueKeys = true) (hb : b.hasUniqueKeys = true)
    (h : same a b = true) : same b a = true := by
  induction a using nestedInduction generalizing b with
  | null =>
    obtain rfl := same_null.mp h
    exact h
  | bool =>
    obtain rfl := same_bool.mp h
    exact h
  | number =>
    obtain rfl := same_number.mp h
    exact h
  | text =>
    obtain rfl := same_text.mp h
    exact h
  | sequence xs ih =>
    obtain ⟨ys, rfl, hlength, hall⟩ := same_sequence.mp h
    refine same_sequence.mpr ⟨xs, rfl, hlength.symm, fun i y x hy hx ↦ ?_⟩
    have hxmem := List.mem_of_getElem? hx
    have hymem := List.mem_of_getElem? hy
    exact ih x hxmem (hasUniqueKeys_sequence.mp ha x hxmem) (hasUniqueKeys_sequence.mp hb y hymem)
      (hall i x y hx hy)
  | mapping xs ih =>
    obtain ⟨ys, rfl, hlength, hall⟩ := same_mapping.mp h
    obtain ⟨hxkeys, hxs⟩ := hasUniqueKeys_mapping.mp ha
    obtain ⟨hykeys, hys⟩ := hasUniqueKeys_mapping.mp hb
    have hsubset : Entries.keys xs ⊆ Entries.keys ys := by
      intro key hkey
      obtain ⟨⟨name, x⟩, hmem, rfl⟩ := List.mem_map.mp hkey
      obtain ⟨y, hfound, -⟩ := hall name x hmem
      exact Entries.mem_keys_of_mem (Entries.mem_of_find? hfound)
    refine same_mapping.mpr ⟨xs, rfl, hlength.symm, fun key y hy ↦ ?_⟩
    -- The keys of the first mapping are among as many of the second, so none of these is missing.
    have hkey := Entries.keys_subset_of_subset hxkeys hlength hsubset (Entries.mem_keys_of_mem hy)
    obtain ⟨⟨name, x⟩, hx, rfl⟩ := List.mem_map.mp hkey
    obtain ⟨other, hfound, hsame⟩ := hall name x hx
    obtain rfl := Option.some.inj (hfound.symm.trans (Entries.find?_of_mem hykeys hy))
    exact ⟨x, Entries.find?_of_mem hxkeys hx, ih (name, x) hx (hxs _ hx) (hys _ hy) hsame⟩

/-- What is the same as one value that is the same as another is the same as this other. -/
theorem same_trans (hab : same a b = true) (hbc : same b c = true) : same a c = true := by
  induction a using nestedInduction generalizing b c with
  | null =>
    obtain rfl := same_null.mp hab
    exact hbc
  | bool =>
    obtain rfl := same_bool.mp hab
    exact hbc
  | number =>
    obtain rfl := same_number.mp hab
    exact hbc
  | text =>
    obtain rfl := same_text.mp hab
    exact hbc
  | sequence xs ih =>
    obtain ⟨ys, rfl, hxy, hfirst⟩ := same_sequence.mp hab
    obtain ⟨zs, rfl, hyz, hsecond⟩ := same_sequence.mp hbc
    refine same_sequence.mpr ⟨zs, rfl, hxy.trans hyz, fun i x z hx hz ↦ ?_⟩
    obtain ⟨hi, -⟩ := List.getElem?_eq_some_iff.mp hx
    have hy : ys[i]? = some (ys[i]) := List.getElem?_eq_getElem (hxy ▸ hi)
    exact ih x (List.mem_of_getElem? hx) (hfirst i x _ hx hy) (hsecond i _ z hy hz)
  | mapping xs ih =>
    obtain ⟨ys, rfl, hxy, hfirst⟩ := same_mapping.mp hab
    obtain ⟨zs, rfl, hyz, hsecond⟩ := same_mapping.mp hbc
    refine same_mapping.mpr ⟨zs, rfl, hxy.trans hyz, fun key x hx ↦ ?_⟩
    obtain ⟨y, hy, hxy⟩ := hfirst key x hx
    obtain ⟨z, hz, hyz⟩ := hsecond key y (Entries.mem_of_find? hy)
    exact ⟨z, hz, ih (key, x) hx hxy hyz⟩

end Value

end BrowserFlow
