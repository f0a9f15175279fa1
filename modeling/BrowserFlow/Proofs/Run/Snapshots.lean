import BrowserFlow.Expression.Token
import BrowserFlow.Proofs.Value.Order
import BrowserFlow.Run.Environment

/-!
Snapshots of an environment. A snapshot of some names has an entry for each of
them that has a value, and the value is the same (`find?_snapshotOf`); only the
ancestor's key is passed over. In an environment that starts from values the
writes leave each bound name with a value (`IsFilled.write`, `IsFilled.writeAll`),
so the snapshot of all names has them once each. Main statement: after any writes
a snapshot is the bindings, or those of the selected names, but for the one name
that it cannot hold (`snapshot_faithful`).
-/

set_option autoImplicit false
set_option relaxedAutoImplicit false

namespace BrowserFlow

namespace Entries

/-- What is under a key after an assignment. -/
theorem find?_assign {α : Type} (entries : Entries α) (key other : Text) (value : α) :
    find? (entries.assign key value) other =
      if key = other ∧ other ≠ ancestorKey then some value else find? entries other := by
  unfold assign
  by_cases hkey : key = ancestorKey
  · rw [if_pos hkey, if_neg]
    rintro ⟨rfl, hother⟩
    exact hother hkey
  · rw [if_neg hkey]
    by_cases hother : key = other
    · subst hother
      rw [find?_put_self, if_pos ⟨rfl, hkey⟩]
    · rw [find?_put_of_ne entries value hother, if_neg fun h ↦ hother h.1]

end Entries

namespace Environment

variable {env : Environment}

/-! ### Writes -/

/-- A write to an environment. -/
inductive Write where
  /-- A name is bound to a value. -/
  | set (name : Text) (value : Value)
  /-- An item is added to the items of a name. -/
  | append (name : Text) (item : Value)

/-- The name that is written. -/
def Write.name : Write → Text
  | .set name _ => name
  | .append name _ => name

/-- The fault of a write, if it fails, and the environment after it. -/
def write (env : Environment) : Write → Option Fault × Environment
  | .set name value => (none, env.set name (some value))
  | .append name item =>
    match env.append name item with
    | .ok (_, next) => (none, next)
    | .error fault => (some fault, env)

/-- An environment after writes, one after the other, whether they fail or not. -/
def writeAll (env : Environment) (writes : List Write) : Environment :=
  writes.foldl (fun env w ↦ (env.write w).2) env

/-- What an append does: it adds the item behind those that the name has, and fails where the name
has a value that is no sequence. -/
theorem write_append (env : Environment) (name : Text) (item : Value) :
    (∃ items, (env.find? name).getD (.sequence []) = .sequence items ∧
      env.write (.append name item) =
        (none, env.set name (some (.sequence (items ++ [item]))))) ∨
    ∃ value, env.find? name = some value ∧ value.kind ≠ .sequence ∧
      env.write (.append name item) = (some (.mismatch (.append name value.kind)), env) := by
  simp only [write, append, extended]
  cases env.find? name with
  | none => exact .inl ⟨[], rfl, rfl⟩
  | some value =>
    cases value with
    | sequence items => exact .inl ⟨items, rfl, rfl⟩
    | null | bool _ | number _ | text _ | mapping _ =>
      exact .inr ⟨_, rfl, by simp [Value.kind], rfl⟩

/-- A write binds its own name or does nothing. -/
theorem write_cases (env : Environment) (w : Write) :
    (∃ value, (env.write w).2 = env.set w.name (some value)) ∨ (env.write w).2 = env := by
  cases w with
  | set name value => exact .inl ⟨value, rfl⟩
  | append name item =>
    rcases write_append env name item with ⟨items, -, hwrite⟩ | ⟨value, -, -, hwrite⟩
    · exact .inl ⟨_, congrArg Prod.snd hwrite⟩
    · exact .inr (congrArg Prod.snd hwrite)

/-! ### Bound names have values -/

/-- An environment whose bound names all have a value. -/
def IsFilled (env : Environment) : Prop := ∀ name, env.has name = (env.find? name).isSome

theorem isFilled_ofValues (seed : Entries Value) : (ofValues seed).IsFilled := by
  intro name
  unfold has find? ofValues ofEntries Entries.has
  induction seed with
  | nil => rfl
  | cons entry rest ih =>
    obtain ⟨first, value⟩ := entry
    by_cases hfirst : first = name
    · simp [Entries.find?, hfirst]
    · simpa [Entries.find?, hfirst] using ih

theorem IsFilled.set (h : env.IsFilled) (name : Text) (value : Value) :
    (env.set name (some value)).IsFilled := by
  intro other
  by_cases hname : name = other
  · subst hname
    simp [has, Entries.has, Environment.set, find?, Entries.find?_write]
  · have hother := h other
    simpa [has, Entries.has, Environment.set, find?, Entries.find?_write, hname] using hother

theorem IsFilled.write (h : env.IsFilled) (w : Write) : (env.write w).2.IsFilled := by
  rcases write_cases env w with ⟨value, hwrite⟩ | hwrite
  · exact hwrite ▸ h.set w.name value
  · exact hwrite.symm ▸ h

theorem IsFilled.writeAll (h : env.IsFilled) (writes : List Write) :
    (env.writeAll writes).IsFilled := by
  induction writes generalizing env with
  | nil => exact h
  | cons w rest ih => exact ih (h.write w)

/-! ### Snapshots -/

/-- The entries of a snapshot are in order, so no name is there twice. -/
theorem snapshotOf_inOrder (env : Environment) (selected : List Text) :
    Entries.InOrder (env.snapshotOf selected) := by
  unfold snapshotOf
  refine List.foldlRecOn (motive := fun done : Entries Value ↦ Entries.InOrder done) selected _
    Entries.inOrder_nil fun done hdone name _ ↦ ?_
  split
  · exact hdone.assign name _
  · exact hdone

/-- A snapshot holds the selected names that have a value, but for the key of the ancestor. -/
theorem find?_snapshotOf (env : Environment) (selected : List Text) (name : Text) :
    Entries.find? (env.snapshotOf selected) name =
      if name ∈ selected ∧ name ≠ Entries.ancestorKey then env.find? name else none := by
  unfold snapshotOf
  induction selected using List.reverseRecOn with
  | nil => simp [Entries.find?]
  | append_singleton earlier last ih =>
    rw [List.foldl_append, List.foldl_cons, List.foldl_nil]
    cases hvalue : env.find? last with
    | none =>
      -- A name without a value adds nothing, and there is nothing to be found under it.
      by_cases hlast : last = name
      · subst hlast
        simpa [hvalue] using ih
      · simpa [Ne.symm hlast] using ih
    | some value =>
      rw [Entries.find?_assign, ih]
      by_cases hlast : last = name
      · subst hlast
        by_cases hancestor : last = Entries.ancestorKey <;> simp [hancestor, hvalue]
      · simp [hlast, Ne.symm hlast]

theorem mem_names_iff (env : Environment) (name : Text) :
    name ∈ env.names ↔ env.has name = true :=
  (Entries.has_eq_true_iff env.bindings name).symm

/-- How often a name is among the entries of a snapshot. -/
theorem IsFilled.count_snapshotOf (h : env.IsFilled) (selected : List Text) (name : Text) :
    (Entries.keys (env.snapshotOf selected)).count name =
      if name ∈ selected ∧ env.has name = true ∧ name ≠ Entries.ancestorKey then 1 else 0 := by
  have hmem : name ∈ Entries.keys (env.snapshotOf selected) ↔
      name ∈ selected ∧ env.has name = true ∧ name ≠ Entries.ancestorKey := by
    rw [← Entries.has_eq_true_iff, Entries.has, find?_snapshotOf, h name]
    by_cases hname : name ∈ selected ∧ name ≠ Entries.ancestorKey
    · simp [hname]
    · rw [if_neg hname]
      exact iff_of_false Bool.false_ne_true fun hall ↦ hname ⟨hall.1, hall.2.2⟩
  rw [(snapshotOf_inOrder env selected).nodup.count]
  exact if_congr hmem rfl rfl

/-- A snapshot is faithful but for one name. After any writes to an environment of values a snapshot
has one entry for each bound name, with its value, and none under another name; a snapshot of
selected names has those of them that the whole snapshot has. No snapshot has an entry under the
ancestor's key, bound or not. A further append binds the items with the new one behind them, or it
fails, as it does where the name has another kind of value, and leaves the environment as it was. -/
theorem snapshot_faithful (seed : Entries Value) (writes : List Write) :
    let env := (ofValues seed).writeAll writes
    (∀ name, (Entries.keys (env.snapshot none)).count name =
        if env.has name = true ∧ name ≠ Entries.ancestorKey then 1 else 0) ∧
      (∀ name, Entries.find? (env.snapshot none) name =
        if name = Entries.ancestorKey then none else env.find? name) ∧
      (∀ selected name, (Entries.keys (env.snapshot (some selected))).count name =
        if name ∈ selected then (Entries.keys (env.snapshot none)).count name else 0) ∧
      (∀ selected name, Entries.find? (env.snapshot (some selected)) name =
        if name ∈ selected then Entries.find? (env.snapshot none) name else none) ∧
      ∀ name item,
        (∃ items, (env.find? name).getD (.sequence []) = .sequence items ∧
          env.write (.append name item) =
            (none, env.set name (some (.sequence (items ++ [item]))))) ∨
        ∃ value, env.find? name = some value ∧ value.kind ≠ .sequence ∧
          env.write (.append name item) =
            (some (.mismatch (.append name value.kind)), env) := by
  intro env
  have hfilled : env.IsFilled := (isFilled_ofValues seed).writeAll writes
  have hcount : ∀ name, (Entries.keys (env.snapshot none)).count name =
      if env.has name = true ∧ name ≠ Entries.ancestorKey then 1 else 0 := by
    intro name
    refine (hfilled.count_snapshotOf env.names name).trans (if_congr ?_ rfl rfl)
    rw [mem_names_iff]
    exact ⟨And.right, fun h ↦ ⟨h.1, h⟩⟩
  have hfind : ∀ name, Entries.find? (env.snapshot none) name =
      if name = Entries.ancestorKey then none else env.find? name := by
    intro name
    refine (find?_snapshotOf env env.names name).trans ?_
    simp only [mem_names_iff, hfilled name]
    cases env.find? name <;> simp
  refine ⟨hcount, hfind, fun selected name ↦ ?_, fun selected name ↦ ?_, write_append env⟩
  · refine (hfilled.count_snapshotOf selected name).trans ?_
    by_cases hname : name ∈ selected <;> simp [hname, hcount name]
  · refine (find?_snapshotOf env selected name).trans ?_
    by_cases hname : name ∈ selected <;> simp [hname, hfind name]

/-- The ancestor's key is a name that a step may bind, and no snapshot has it. -/
theorem not_forall_snapshot_faithful :
    ¬ ∀ (seed : Entries Value) (writes : List Write),
      (∀ w ∈ writes, w.name.isName = true) →
        let env := (ofValues seed).writeAll writes
        ∀ name, (Entries.keys (env.snapshot none)).count name = if env.has name then 1 else 0 := by
  intro h
  have hcount := h [] [.set Entries.ancestorKey (.number 1)]
    (fun w hw ↦ by rw [List.mem_singleton.mp hw]; decide) Entries.ancestorKey
  revert hcount
  decide

end Environment

end BrowserFlow
