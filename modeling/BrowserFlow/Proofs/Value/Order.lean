import BrowserFlow.Proofs.Text.Numerals
import BrowserFlow.Value.Basic

/-!
The order of entries. Keys are in order when no two are the same, none stands
behind a key that it goes before, and the ancestor's key is not among them.
Whatever is assigned to entries in order leaves them in order
(`InOrder.assign`), and entries in order that are assigned one after the other
are left as they are (`assignAll_of_inOrder`): building a mapping anew from its
own entries changes nothing.
-/

set_option autoImplicit false
set_option relaxedAutoImplicit false

namespace BrowserFlow.Entries

variable {α : Type}

/-! ### Keys in order -/

/-- Keys in the order in which a mapping that is built entry by entry has them. -/
def KeysInOrder (keys : List Text) : Prop :=
  keys.Pairwise (fun earlier later ↦ earlier ≠ later ∧ goesBefore later earlier = false) ∧
    ancestorKey ∉ keys

instance (keys : List Text) : Decidable (KeysInOrder keys) :=
  inferInstanceAs (Decidable (_ ∧ _))

theorem KeysInOrder.sublist {keys others : List Text} (h : KeysInOrder others)
    (hsub : keys.Sublist others) : KeysInOrder keys :=
  ⟨h.1.sublist hsub, fun hmem ↦ h.2 (hsub.subset hmem)⟩

theorem KeysInOrder.nodup {keys : List Text} (h : KeysInOrder keys) : keys.Nodup :=
  h.1.imp fun hpair ↦ hpair.1

theorem goesBefore_asymm {new old : Text} (h : goesBefore new old = true) :
    goesBefore old new = false := by
  unfold goesBefore at h ⊢
  cases hnew : indexOfKey? new with
  | none => simp [hnew] at h
  | some n =>
    cases hold : indexOfKey? old with
    | none => simp
    | some m =>
      simp only [hnew, hold, decide_eq_true_eq] at h
      simp only [decide_eq_false_iff_not]
      omega

theorem goesBefore_trans {first second third : Text} (h : goesBefore first second = true)
    (hnext : goesBefore second third = true) : goesBefore first third = true := by
  unfold goesBefore at h hnext ⊢
  cases hfirst : indexOfKey? first with
  | none => simp [hfirst] at h
  | some n =>
    cases hsecond : indexOfKey? second with
    | none => simp [hsecond] at hnext
    | some m =>
      cases hthird : indexOfKey? third with
      | none => simp
      | some k =>
        simp only [hfirst, hsecond, hthird, decide_eq_true_eq] at h hnext ⊢
        omega

/-! ### Indexes as keys -/

theorem indexOfKey?_ofNat (n : Nat) :
    indexOfKey? (Text.ofNat n) = if n < 4294967295 then some n else none := by
  have hdigits : (Text.ofNat n).units.all CodeUnit.isDigit = true :=
    List.all_eq_true.mpr fun u hu ↦ Text.isDigit_of_mem_ofNat hu
  have hunits : (Text.ofNat n).units.isEmpty = false := by
    simpa using Text.ofNat_units_ne_nil n
  simp [indexOfKey?, hdigits, hunits, Text.foldl_digits]

/-- No index goes before a smaller one. -/
theorem goesBefore_ofNat {n m : Nat} (h : n < m) :
    goesBefore (Text.ofNat m) (Text.ofNat n) = false := by
  unfold goesBefore
  rw [indexOfKey?_ofNat, indexOfKey?_ofNat]
  by_cases hm : m < 4294967295
  · have hn : n < 4294967295 := by omega
    simp only [hm, hn, if_true, decide_eq_false_iff_not]
    omega
  · simp [hm]

/-- Indexes one after the other are in order. -/
theorem keysInOrder_indexes (count : Nat) : KeysInOrder ((List.range count).map Text.ofNat) := by
  refine ⟨?_, fun hmem ↦ ?_⟩
  · rw [List.pairwise_map]
    refine (List.pairwise_lt_range).imp fun {n m} h ↦ ⟨fun heq ↦ ?_, goesBefore_ofNat h⟩
    exact absurd (Text.ofNat_injective heq) (Nat.ne_of_lt h)
  · obtain ⟨n, -, heq⟩ := List.mem_map.mp hmem
    -- The ancestor's key begins with a low line, which is no digit.
    have hline : ('_' : CodeUnit) ∈ (Text.ofNat n).units := heq ▸ by decide
    exact Text.notMem_ofNat (by decide) n hline

/-! ### Entries in order -/

/-- Entries whose keys are in order. -/
def InOrder (entries : Entries α) : Prop := KeysInOrder (keys entries)

theorem inOrder_nil : InOrder ([] : Entries α) := ⟨.nil, by simp [keys]⟩

theorem InOrder.of_keys {entries : Entries α} (expected : List Text)
    (hkeys : keys entries = expected) (h : KeysInOrder expected) : InOrder entries := by
  rw [InOrder, hkeys]
  exact h

theorem has_eq_true_iff (entries : Entries α) (key : Text) :
    entries.has key = true ↔ key ∈ keys entries := by
  induction entries with
  | nil => simp [has, find?, keys]
  | cons entry rest ih =>
    obtain ⟨name, value⟩ := entry
    by_cases hname : name = key
    · simp [has, find?, keys, hname]
    · simpa [has, find?, keys, hname, Ne.symm hname] using ih

theorem has_eq_false_iff (entries : Entries α) (key : Text) :
    entries.has key = false ↔ key ∉ keys entries := by
  rw [← has_eq_true_iff, Bool.not_eq_true]

theorem find?_eq_none {entries : Entries α} {key : Text} (h : key ∉ keys entries) :
    entries.find? key = none :=
  Option.isNone_iff_eq_none.mp
    (Option.isSome_eq_false_iff.mp ((has_eq_false_iff entries key).mpr h))

theorem keys_replace (key : Text) (value : α) (entries : Entries α) :
    keys (replace key value entries) = keys entries := by
  induction entries with
  | nil => rfl
  | cons entry rest ih =>
    obtain ⟨name, old⟩ := entry
    by_cases hname : name = key
    · simp [replace, keys, hname]
    · simpa [replace, keys, hname] using ih

theorem mem_keys_insert (key : Text) (value : α) (entries : Entries α) (other : Text) :
    other ∈ keys (insert key value entries) ↔ other = key ∨ other ∈ keys entries := by
  induction entries with
  | nil => simp [insert, keys]
  | cons entry rest ih =>
    obtain ⟨name, old⟩ := entry
    by_cases hbefore : goesBefore key name = true
    · simp [insert, hbefore, keys]
    · have hkeys : keys (insert key value ((name, old) :: rest)) =
          name :: keys (insert key value rest) := by simp [insert, hbefore, keys]
      rw [hkeys, List.mem_cons, ih]
      simp only [keys, List.map_cons, List.mem_cons]
      exact or_left_comm

theorem InOrder.insert {entries : Entries α} (h : InOrder entries) {key : Text} (value : α)
    (hnew : key ∉ keys entries) (hkey : key ≠ ancestorKey) :
    InOrder (insert key value entries) := by
  refine ⟨?_, fun hmem ↦ ?_⟩
  · induction entries with
    | nil => simp [Entries.insert, keys]
    | cons entry rest ih =>
      obtain ⟨name, old⟩ := entry
      obtain ⟨hname, hrest⟩ := List.pairwise_cons.mp h.1
      have hne : key ≠ name := fun heq ↦ hnew (by simp [keys, heq])
      have hnotin : key ∉ keys rest := fun hmem ↦ hnew (List.mem_cons_of_mem _ hmem)
      by_cases hbefore : goesBefore key name = true
      · have hkeys : keys (Entries.insert key value ((name, old) :: rest)) =
            key :: name :: keys rest := by simp [Entries.insert, hbefore, keys]
        rw [hkeys]
        refine List.pairwise_cons.mpr ⟨fun other hother ↦ ?_, h.1⟩
        rcases List.mem_cons.mp hother with rfl | hother
        · exact ⟨hne, goesBefore_asymm hbefore⟩
        · -- What went before the new key would go before the one that the new key goes before.
          refine ⟨fun heq ↦ hnotin (heq ▸ hother), Bool.eq_false_iff.mpr fun hlater ↦ ?_⟩
          have hclash := goesBefore_trans hlater hbefore
          rw [(hname other hother).2] at hclash
          exact Bool.false_ne_true hclash
      · have hkeys : keys (Entries.insert key value ((name, old) :: rest)) =
            name :: keys (Entries.insert key value rest) := by
          simp [Entries.insert, hbefore, keys]
        rw [hkeys]
        have hinner : InOrder rest := h.sublist (List.sublist_cons_self _ _)
        refine List.pairwise_cons.mpr ⟨fun other hother ↦ ?_, ih hinner hnotin⟩
        rcases (mem_keys_insert key value rest other).mp hother with rfl | hother
        · exact ⟨Ne.symm hne, Bool.not_eq_true _ ▸ hbefore⟩
        · exact hname other hother
  · rcases (mem_keys_insert key value entries ancestorKey).mp hmem with heq | hmem
    · exact hkey heq.symm
    · exact h.2 hmem

theorem InOrder.put {entries : Entries α} (h : InOrder entries) {key : Text} (value : α)
    (hkey : key ≠ ancestorKey) : InOrder (entries.put key value) := by
  unfold Entries.put
  cases hhas : entries.has key with
  | true =>
    rw [if_pos rfl, InOrder, keys_replace]
    exact h
  | false =>
    rw [if_neg (by simp)]
    exact h.insert value ((has_eq_false_iff entries key).mp hhas) hkey

/-- What is assigned to entries in order leaves them in order. -/
theorem InOrder.assign {entries : Entries α} (h : InOrder entries) (key : Text) (value : α) :
    InOrder (entries.assign key value) := by
  unfold Entries.assign
  split
  · exact h
  · next hkey => exact h.put value hkey

/-! ### What is among the entries -/

theorem mem_of_find? {entries : Entries α} {key : Text} {value : α}
    (h : find? entries key = some value) : (key, value) ∈ entries := by
  induction entries with
  | nil => simp [find?] at h
  | cons entry rest ih =>
    obtain ⟨name, old⟩ := entry
    by_cases hname : name = key
    · simp only [find?, hname, if_true, Option.some.injEq] at h
      exact hname ▸ h ▸ .head _
    · simp only [find?, hname, if_false] at h
      exact .tail _ (ih h)

theorem mem_insert {entries : Entries α} {key : Text} {value : α} {entry : Text × α}
    (h : entry ∈ insert key value entries) : entry ∈ entries ∨ entry = (key, value) := by
  induction entries with
  | nil => exact .inr (List.mem_singleton.mp h)
  | cons first rest ih =>
    obtain ⟨name, old⟩ := first
    by_cases hbefore : goesBefore key name = true
    · rw [insert, if_pos hbefore] at h
      exact (List.mem_cons.mp h).symm
    · rw [insert, if_neg hbefore] at h
      rcases List.mem_cons.mp h with rfl | hrest
      · exact .inl (List.mem_cons_self ..)
      · exact (ih hrest).imp_left (List.mem_cons_of_mem _)

theorem mem_replace {entries : Entries α} {key : Text} {value : α} {entry : Text × α}
    (h : entry ∈ replace key value entries) : entry ∈ entries ∨ entry = (key, value) := by
  induction entries with
  | nil => exact .inl h
  | cons first rest ih =>
    obtain ⟨name, old⟩ := first
    by_cases hname : name = key
    · rw [replace, if_pos hname] at h
      rcases List.mem_cons.mp h with heq | hrest
      · exact .inr (hname ▸ heq)
      · exact .inl (List.mem_cons_of_mem _ hrest)
    · rw [replace, if_neg hname] at h
      rcases List.mem_cons.mp h with rfl | hrest
      · exact .inl (List.mem_cons_self ..)
      · exact (ih hrest).imp_left (List.mem_cons_of_mem _)

/-- Putting adds no other entry. -/
theorem mem_put {entries : Entries α} {key : Text} {value : α} {entry : Text × α}
    (h : entry ∈ entries.put key value) : entry ∈ entries ∨ entry = (key, value) := by
  unfold put at h
  split at h
  · exact mem_replace h
  · exact mem_insert h

/-- Assigning adds no other entry. -/
theorem mem_assign {entries : Entries α} {key : Text} {value : α} {entry : Text × α}
    (h : entry ∈ entries.assign key value) : entry ∈ entries ∨ entry = (key, value) := by
  unfold assign at h
  split at h
  · exact .inl h
  · exact mem_put h

/-- Writing adds no other entry. -/
theorem mem_write {entries : Entries α} {key : Text} {value : α} {entry : Text × α}
    (h : entry ∈ entries.write key value) : entry ∈ entries ∨ entry = (key, value) := by
  unfold write at h
  split at h
  · exact mem_replace h
  · rcases List.mem_append.mp h with hold | hnew
    · exact .inl hold
    · exact .inr (List.mem_singleton.mp hnew)

/-- Overriding adds no other entries. -/
theorem mem_override {entries later : Entries α} {entry : Text × α}
    (h : entry ∈ entries.override later) : entry ∈ entries ∨ entry ∈ later := by
  unfold override at h
  induction later generalizing entries with
  | nil => exact .inl h
  | cons first rest ih =>
    rcases ih h with hput | hrest
    · rcases mem_put hput with hold | rfl
      · exact .inl hold
      · exact .inr (List.mem_cons_self ..)
    · exact .inr (List.mem_cons_of_mem _ hrest)

/-- What is written over entries leaves those under other keys alone. -/
theorem find?_override_of_notMem {entries later : Entries α} {key : Text} (h : key ∉ keys later) :
    (entries.override later).find? key = entries.find? key := by
  unfold override
  induction later generalizing entries with
  | nil => rfl
  | cons entry rest ih =>
    obtain ⟨hfirst, hrest⟩ := not_or.mp (mt List.mem_cons.mpr h)
    rw [List.foldl_cons, ih hrest, find?_put_of_ne entries _ (Ne.symm hfirst)]

/-- What is written over entries takes the place of what was under its key. -/
theorem find?_override_of_mem {entries later : Entries α} (hkeys : (keys later).Nodup) {key : Text}
    {value : α} (h : (key, value) ∈ later) :
    (entries.override later).find? key = some value := by
  induction later generalizing entries with
  | nil => cases h
  | cons entry rest ih =>
    obtain ⟨hfirst, hrest⟩ := List.nodup_cons.mp hkeys
    change (override (entries.put entry.1 entry.2) rest).find? key = some value
    rcases List.mem_cons.mp h with rfl | h
    · rw [find?_override_of_notMem hfirst, find?_put_self]
    · exact ih hrest h

/-! ### Building entries anew -/

theorem insert_eq_append {entries : Entries α} {key : Text} (value : α)
    (h : ∀ name ∈ keys entries, goesBefore key name = false) :
    insert key value entries = entries ++ [(key, value)] := by
  induction entries with
  | nil => rfl
  | cons entry rest ih =>
    obtain ⟨name, old⟩ := entry
    have hname : goesBefore key name = false := h name (by simp [keys])
    have hrest : insert key value rest = rest ++ [(key, value)] :=
      ih fun other hother ↦ h other (List.mem_cons_of_mem _ hother)
    simp [insert, hname, hrest]

/-- An entry that is in order behind others is put there. -/
theorem put_eq_append {entries : Entries α} {key : Text} {value : α}
    (h : InOrder (entries ++ [(key, value)])) :
    entries.put key value = entries ++ [(key, value)] := by
  have hpairs := h.1
  rw [keys, List.map_append, List.pairwise_append] at hpairs
  have hlast : ∀ name ∈ keys entries, name ≠ key ∧ goesBefore key name = false :=
    fun name hname ↦ hpairs.2.2 name hname key (by simp)
  have hnew : entries.has key = false :=
    (has_eq_false_iff entries key).mpr fun hmem ↦ (hlast key hmem).1 rfl
  rw [put, hnew, if_neg (by simp)]
  exact insert_eq_append value fun name hname ↦ (hlast name hname).2

theorem InOrder.ne_ancestorKey {entries : Entries α} (h : InOrder entries) {key : Text} {value : α}
    (hmem : (key, value) ∈ entries) : key ≠ ancestorKey := by
  rintro rfl
  exact h.2 (List.mem_map.mpr ⟨_, hmem, rfl⟩)

theorem assign_eq_append {entries : Entries α} {key : Text} {value : α}
    (h : InOrder (entries ++ [(key, value)])) :
    entries.assign key value = entries ++ [(key, value)] := by
  rw [assign, if_neg (h.ne_ancestorKey (List.mem_append_right _ (List.mem_singleton_self _)))]
  exact put_eq_append h

/-- Entries in order are only put together when they are added one after the other in a way that
puts what is in order behind the others there. -/
theorem foldl_eq_append {add : Entries α → Text × α → Entries α}
    (hadd : ∀ entries entry, InOrder (entries ++ [entry]) → add entries entry = entries ++ [entry])
    {entries later : Entries α} (h : InOrder (entries ++ later)) :
    later.foldl add entries = entries ++ later := by
  induction later generalizing entries with
  | nil => exact (List.append_nil entries).symm
  | cons entry rest ih =>
    have hsplit : entries ++ entry :: rest = (entries ++ [entry]) ++ rest := by simp
    rw [hsplit] at h ⊢
    have hfirst : InOrder (entries ++ [entry]) :=
      h.sublist ((List.sublist_append_left _ _).map _)
    rw [List.foldl_cons, hadd entries entry hfirst]
    exact ih h

/-- The entries with those of a second list assigned to them. -/
def assignAll (entries later : Entries α) : Entries α :=
  later.foldl (fun all (key, value) ↦ all.assign key value) entries

theorem InOrder.assignAll {entries : Entries α} (h : InOrder entries) (later : Entries α) :
    InOrder (assignAll entries later) := by
  induction later generalizing entries with
  | nil => exact h
  | cons entry rest ih => exact ih (h.assign entry.1 entry.2)

theorem mem_assignAll {entries later : Entries α} {entry : Text × α}
    (h : entry ∈ assignAll entries later) : entry ∈ entries ∨ entry ∈ later := by
  induction later generalizing entries with
  | nil => exact .inl h
  | cons first rest ih =>
    rcases ih h with hassigned | hrest
    · rcases mem_assign hassigned with hold | rfl
      · exact .inl hold
      · exact .inr (List.mem_cons_self ..)
    · exact .inr (List.mem_cons_of_mem _ hrest)

/-- Entries in order are left as they are when they are assigned one after the other. -/
theorem assignAll_of_inOrder {entries : Entries α} (h : InOrder entries) :
    assignAll [] entries = entries :=
  foldl_eq_append (fun _ _ ↦ assign_eq_append) h

theorem override_eq_append {entries later : Entries α} (h : InOrder (entries ++ later)) :
    entries.override later = entries ++ later :=
  foldl_eq_append (fun _ _ ↦ put_eq_append) h

theorem ofList_of_inOrder {entries : Entries α} (h : InOrder entries) : ofList entries = entries :=
  foldl_eq_append (fun _ _ ↦ put_eq_append) h

/-! ### Entries that may be absent -/

theorem keys_present_sublist (fields : List (Text × Option α)) :
    (keys (present fields)).Sublist (fields.map Prod.fst) := by
  induction fields with
  | nil => exact .refl _
  | cons field rest ih =>
    obtain ⟨key, slot⟩ := field
    cases slot with
    | none => exact ih.cons key
    | some value => exact ih.cons_cons key

/-- What is under a key of fields with distinct keys. -/
theorem find?_present {fields : List (Text × Option α)} (h : (fields.map Prod.fst).Nodup)
    {key : Text} {slot : Option α} (hmem : (key, slot) ∈ fields) :
    find? (present fields) key = slot := by
  induction fields with
  | nil => simp at hmem
  | cons field rest ih =>
    obtain ⟨name, first⟩ := field
    obtain ⟨hname, hrest⟩ := List.nodup_cons.mp h
    have hpresent : present ((name, first) :: rest) =
        (first.map fun value ↦ (name, value)).toList ++ present rest := by
      cases first <;> rfl
    rw [hpresent]
    rcases List.mem_cons.mp hmem with heq | hlater
    · obtain ⟨rfl, rfl⟩ := Prod.mk.inj heq
      cases slot with
      | some value => simp [find?]
      | none =>
        -- The key is not among the later ones either.
        have hnotin : key ∉ keys (present rest) := fun hin ↦
          hname ((keys_present_sublist rest).subset hin)
        simpa [has] using (has_eq_false_iff _ key).mpr hnotin
    · have hne : name ≠ key := fun heq ↦ hname (heq ▸ List.mem_map.mpr ⟨_, hlater, rfl⟩)
      cases first with
      | none => exact ih hrest hlater
      | some value => simpa [find?, hne] using ih hrest hlater

end BrowserFlow.Entries
