import BrowserFlow.Document.Checked
import BrowserFlow.Proofs.Value.Order

/-!
Reading without issues. Each way of reading a part from smaller ones succeeds
without issues exactly when the smaller ones do and what it asks for itself holds
(`seq_eq_ok`, `form_eq_ok`, `firstOf_cons_eq_ok`, `record_eq_ok`).
-/

set_option autoImplicit false
set_option relaxedAutoImplicit false

namespace BrowserFlow

namespace Checked

variable {α β : Type}

/-! ### Without issues -/

theorem eq_ok_iff (c : Checked α) (a : α) : c = ok a ↔ c.value? = some a ∧ c.issues = [] := by
  constructor
  · rintro rfl
    exact ⟨rfl, rfl⟩
  · rintro ⟨hvalue, hissues⟩
    obtain ⟨value, issues⟩ := c
    obtain rfl := hvalue
    obtain rfl := hissues
    rfl

theorem ok_inj {a b : α} : ok a = ok b ↔ a = b := by simp [ok]

theorem refused_ne_ok (flaw : Flaw) (a : α) : refused flaw ≠ ok a := by simp [eq_ok_iff, refused]

theorem isClean_iff (c : Checked α) : c.isClean = true ↔ ∃ a, c = ok a := by
  obtain ⟨value, issues⟩ := c
  cases value <;> simp [isClean, ok]

theorem isClean_eq_false_iff (c : Checked α) : c.isClean = false ↔ ∀ a, c ≠ ok a := by
  rw [← Bool.not_eq_true, isClean_iff, not_exists]

theorem map_eq_ok {f : α → β} {c : Checked α} {b : β} :
    f <$> c = ok b ↔ ∃ a, c = ok a ∧ f a = b := by
  change map f c = ok b ↔ _
  obtain ⟨value, issues⟩ := c
  cases value with
  | none => simp [map, ok]
  | some a => simp [map, ok, and_comm]

theorem isClean_map (f : α → β) (c : Checked α) : (f <$> c).isClean = c.isClean := by
  change (map f c).isClean = c.isClean
  simp [isClean, map]

theorem seq_eq_ok {f : Checked (α → β)} {c : Checked α} {b : β} :
    f <*> c = ok b ↔ ∃ g a, f = ok g ∧ c = ok a ∧ g a = b := by
  change seq f c = ok b ↔ _
  obtain ⟨function?, issues⟩ := f
  obtain ⟨value?, others⟩ := c
  cases function? with
  | none => simp [seq, ok]
  | some g =>
    cases value? with
    | none => simp [seq, ok]
    | some a => simp [seq, ok, and_comm, and_left_comm]

theorem within_eq_ok {place : PathStep} {c : Checked α} {a : α} :
    c.within place = ok a ↔ c = ok a := by
  obtain ⟨value, issues⟩ := c
  simp [within, ok]

/-- A test that adds an issue when a part that can be read does not pass it. -/
theorem tested_eq_ok {test : α → Bool} {issue : α → Issue} {c : Checked α} {a : α} :
    (match c.value? with
      | some b => if test b then c else { c with issues := c.issues ++ [issue b] }
      | none => c) = ok a ↔ c = ok a ∧ test a = true := by
  obtain ⟨value, issues⟩ := c
  cases value with
  | none => simp [ok]
  | some b =>
    have hsame : (⟨some b, issues⟩ : Checked α) = ok a → b = a := fun h ↦
      Option.some.inj (congrArg value? h)
    dsimp only
    by_cases htest : test b = true
    · rw [if_pos htest]
      exact ⟨fun h ↦ ⟨h, hsame h ▸ htest⟩, fun h ↦ h.1⟩
    · rw [if_neg htest]
      refine ⟨fun h ↦ ?_, fun h ↦ absurd (hsame h.1 ▸ h.2) htest⟩
      simp [eq_ok_iff] at h

theorem require_eq_ok {test : α → Bool} {flaw : Flaw} {c : Checked α} {a : α} :
    require test flaw c = ok a ↔ c = ok a ∧ test a = true := tested_eq_ok

theorem field_eq_ok {d : Datum} {key : Text} {read : Datum → Checked α} {a : α} :
    field d key read = ok a ↔ read (d.member key) = ok a := within_eq_ok

theorem field_congr {read other : Datum → Checked α} {d : Datum} {key : Text}
    (h : read (d.member key) = other (d.member key)) : field d key read = field d key other :=
  congrArg (within (.key key)) h

theorem form_eq_ok {keys : List Text} {d : Datum} {members : Checked α} {a : α} :
    form keys d members = ok a ↔
      d.isObject = true ∧ (∀ key ∈ d.listed.map Prod.fst, key ∈ keys) ∧ members = ok a := by
  unfold form
  by_cases hobject : d.isObject = true
  · simp only [hobject, if_true, true_and]
    by_cases hknown : ∀ key ∈ d.listed.map Prod.fst, key ∈ keys
    · have hunknown : ((d.listed.map Prod.fst).filter fun key ↦ !keys.contains key) = [] := by
        rw [List.filter_eq_nil_iff]
        intro key hkey
        simpa using hknown key hkey
      simp only [hunknown, List.isEmpty_nil, if_true]
      exact (and_iff_right hknown).symm
    · have hunknown : ((d.listed.map Prod.fst).filter fun key ↦ !keys.contains key).isEmpty =
          false := by
        rw [List.isEmpty_eq_false_iff, ne_eq, List.filter_eq_nil_iff]
        intro hall
        exact hknown fun key hkey ↦ by simpa using hall key hkey
      rw [hunknown]
      constructor
      · intro h
        simp [eq_ok_iff] at h
      · exact fun h ↦ absurd h.1 hknown
  · simp only [hobject]
    exact ⟨fun h ↦ absurd h (refused_ne_ok _ a), fun h ↦ absurd h.1 (by simp)⟩

theorem optional_eq_ok {read : Datum → Checked α} {d : Datum} {a? : Option α} :
    optional read d = ok a? ↔
      (d.isAbsent = true ∧ a? = none) ∨
        (d.isAbsent = false ∧ ∃ a, read d = ok a ∧ a? = some a) := by
  unfold optional
  cases d.isAbsent with
  | true => simp [ok_inj, eq_comm]
  | false =>
    have hmap : map some (read d) = ok a? ↔ ∃ a, read d = ok a ∧ some a = a? := map_eq_ok
    simp [hmap, eq_comm]

/-! ### Alternatives -/

theorem firstOf_eq_ok {alternatives : List (Checked α)} {a : α} :
    firstOf alternatives = ok a ↔ alternatives.find? isClean = some (ok a) := by
  unfold firstOf
  cases hclean : alternatives.find? isClean with
  | some c => simp
  | none =>
    -- No alternative is without issues, so what is taken instead is not either.
    have hnone : ∀ c ∈ alternatives, c ≠ ok a := by
      intro c hc heq
      have hissues := List.find?_eq_none.mp hclean c hc
      exact hissues ((isClean_iff c).mpr ⟨a, heq⟩)
    simp only [reduceCtorEq, iff_false]
    split
    · next c hreadable => exact hnone c (List.mem_of_find?_eq_some hreadable)
    · exact refused_ne_ok _ a

theorem firstOf_nil_ne_ok (a : α) : firstOf [] ≠ ok a := by simp [firstOf_eq_ok]

/-- The first alternative counts when it has no issues, and else the others. -/
theorem firstOf_cons_eq_ok {c : Checked α} {rest : List (Checked α)} {a : α} :
    firstOf (c :: rest) = ok a ↔ c = ok a ∨ (c.isClean = false ∧ firstOf rest = ok a) := by
  rw [firstOf_eq_ok, firstOf_eq_ok, List.find?_cons]
  cases hclean : c.isClean with
  | true => simp
  | false =>
    have hne : c ≠ ok a := by
      rintro rfl
      exact Bool.false_ne_true hclean.symm
    simp [hne]

theorem firstOf_of_head {c : Checked α} {a : α} (rest : List (Checked α)) (h : c = ok a) :
    firstOf (c :: rest) = ok a := firstOf_cons_eq_ok.mpr (.inl h)

theorem firstOf_of_tail {c : Checked α} {rest : List (Checked α)} {a : α}
    (hfirst : c.isClean = false) (h : firstOf rest = ok a) : firstOf (c :: rest) = ok a :=
  firstOf_cons_eq_ok.mpr (.inr ⟨hfirst, h⟩)

/-! ### Rows -/

theorem list_eq_ok {parts : List (Checked α)} {as : List α} :
    list parts = ok as ↔ parts = as.map ok := by
  induction parts generalizing as with
  | nil =>
    have hnil : [] = as.map ok ↔ as = [] := eq_comm.trans List.map_eq_nil_iff
    exact (ok_inj.trans eq_comm).trans hnil.symm
  | cons c rest ih =>
    have hcons : list (c :: rest) = List.cons <$> c <*> list rest := rfl
    rw [hcons, seq_eq_ok]
    constructor
    · rintro ⟨g, others, hg, hothers, rfl⟩
      obtain ⟨a, rfl, rfl⟩ := map_eq_ok.mp hg
      rw [ih.mp hothers]
      rfl
    · intro h
      cases as with
      | nil => simp at h
      | cons a others =>
        obtain ⟨rfl, hothers⟩ := List.cons.inj h
        exact ⟨_, others, map_eq_ok.mpr ⟨a, rfl, rfl⟩, ih.mpr hothers, rfl⟩

theorem items_eq_ok {parts : List (Checked α)} {as : List α} :
    items parts = ok as ↔ parts = as.map ok := by
  rw [items, list_eq_ok, List.ext_getElem?_iff, List.ext_getElem?_iff]
  refine forall_congr' fun index ↦ ?_
  rw [List.getElem?_mapIdx, List.getElem?_map]
  cases parts[index]? with
  | none => cases as[index]? <;> simp
  | some c =>
    cases as[index]? with
    | none => simp
    | some a => simpa using within_eq_ok

theorem sequence_eq_ok {read : Datum → Checked α} {d : Datum} {as : List α} :
    sequence read d = ok as ↔ ∃ ds, d = .sequence ds ∧ ds.map read = as.map ok := by
  constructor
  · intro h
    cases d with
    | sequence ds => exact ⟨ds, rfl, items_eq_ok.mp h⟩
    | _ => exact absurd h (refused_ne_ok _ as)
  · rintro ⟨ds, rfl, hds⟩
    exact items_eq_ok.mpr hds

theorem items_attach {read : Datum → Checked α} {d : Datum} {ds : List Datum}
    (h : d = .sequence ds) : items (ds.attach.map fun x ↦ read x.1) = sequence read d := by
  subst h
  rw [List.attach_map_val]
  rfl

theorem refused_of_ne {read : Datum → Checked α} {d : Datum} (h : ∀ ds, d ≠ .sequence ds) :
    refused (.wrongType "array" d.typeName) = sequence read d := by
  cases d with
  | sequence ds => exact absurd rfl (h ds)
  | _ => rfl

theorem nonempty_eq_ok {c : Checked (List α)} {as : List α} :
    nonempty c = ok as ↔ c = ok as ∧ as ≠ [] := by
  obtain ⟨value, issues⟩ := c
  cases value with
  | none => simp [nonempty, ok]
  | some found =>
    cases found with
    | nil =>
      constructor
      · intro h
        simp [nonempty, eq_ok_iff] at h
      · rintro ⟨h, hne⟩
        obtain ⟨hvalue, -⟩ := (eq_ok_iff _ as).mp h
        exact absurd (Option.some.inj hvalue).symm hne
    | cons first others =>
      change Checked.mk _ _ = ok as ↔ Checked.mk _ _ = ok as ∧ as ≠ []
      refine ⟨fun h ↦ ⟨h, ?_⟩, fun h ↦ h.1⟩
      obtain ⟨hvalue, -⟩ := (eq_ok_iff _ as).mp h
      rw [← Option.some.inj hvalue]
      exact List.cons_ne_nil first others

/-- A mapping is read without issues when each of its members is, and these are assigned one after
the other. -/
theorem record_eq_ok {read : Datum → Checked α} {d : Datum} {entries : Entries α} :
    record read d = ok entries ↔ d.isObject = true ∧ ∃ pairs : Entries α,
      d.listed.map (fun (key, x) ↦ (key, read x)) = pairs.map (fun (key, a) ↦ (key, ok a)) ∧
        Entries.assignAll [] pairs = entries := by
  have hpairs : ∀ (members : List (Text × Datum)) (pairs : Entries α),
      members.map (fun (key, x) ↦ map (fun a ↦ (key, a)) ((read x).within (.key key))) =
          pairs.map ok ↔
        members.map (fun (key, x) ↦ (key, read x)) = pairs.map (fun (key, a) ↦ (key, ok a)) := by
    intro members
    induction members with
    | nil => intro pairs; cases pairs <;> simp
    | cons member rest ih =>
      intro pairs
      cases pairs with
      | nil => simp
      | cons pair others =>
        have hfirst : map (fun a ↦ (member.1, a)) ((read member.2).within (.key member.1)) =
            ok pair ↔ (member.1, read member.2) = (pair.1, ok pair.2) := by
          refine Iff.trans map_eq_ok ?_
          simp only [within_eq_ok, Prod.mk.injEq]
          constructor
          · rintro ⟨a, ha, rfl⟩
            exact ⟨rfl, ha⟩
          · rintro ⟨hkey, ha⟩
            exact ⟨pair.2, ha, by rw [hkey]⟩
        simp only [List.map_cons, List.cons.injEq, ih others]
        exact and_congr_left' hfirst
  unfold record
  by_cases hobject : d.isObject = true
  · rw [if_pos hobject]
    simp only [hobject, true_and]
    refine Iff.trans map_eq_ok (exists_congr fun pairs ↦ and_congr ?_ Iff.rfl)
    exact list_eq_ok.trans (hpairs d.listed pairs)
  · rw [if_neg hobject]
    exact ⟨fun h ↦ absurd h (refused_ne_ok _ entries), fun h ↦ absurd h.1 hobject⟩

end Checked

end BrowserFlow
