import BrowserFlow.Fault.Classified

/-!
What computations throw. A computation throws only errors of a kind when all its
errors are of the kind, and computations that are put together throw what their
parts throw. Naming or normalising a datum throws no faults of the engine
(`Datum.spoken_throwsOnly`, `Datum.normal_throwsOnly`). An error that is thrown
always has a fault (`Fault.classify_failure`), and this is a fault about a
template only where one was thrown (`Fault.eq_of_classify`).
-/

set_option autoImplicit false
set_option relaxedAutoImplicit false

namespace BrowserFlow

/-- A computation all of whose errors are of a kind. -/
def ThrowsOnly {ε α : Type} (kind : ε → Prop) (x : Except ε α) : Prop :=
  ∀ thrown, x = .error thrown → kind thrown

namespace ThrowsOnly

variable {ε α β : Type} {kind other : ε → Prop} {x : Except ε α}

theorem ok (a : α) : ThrowsOnly kind (.ok a : Except ε α) := by
  intro thrown h
  cases h

theorem error {thrown : ε} (h : kind thrown) : ThrowsOnly kind (.error thrown : Except ε α) := by
  intro found hfound
  rw [← Except.error.inj hfound]
  exact h

theorem bind_of_ok {f : α → Except ε β} (hx : ThrowsOnly kind x)
    (hf : ∀ a, x = .ok a → ThrowsOnly kind (f a)) : ThrowsOnly kind (x >>= f) := by
  intro thrown h
  cases x with
  | error found => exact hx thrown (congrArg Except.error (Except.error.inj h))
  | ok a => exact hf a rfl thrown h

theorem bind {f : α → Except ε β} (hx : ThrowsOnly kind x) (hf : ∀ a, ThrowsOnly kind (f a)) :
    ThrowsOnly kind (x >>= f) :=
  bind_of_ok hx fun a _ ↦ hf a

theorem rethrow {thrown : ε} (h : ThrowsOnly kind (.error thrown : Except ε α)) :
    ThrowsOnly kind (.error thrown : Except ε β) := .error (h thrown rfl)

theorem mono (hx : ThrowsOnly kind x) (himp : ∀ thrown, kind thrown → other thrown) :
    ThrowsOnly other x :=
  fun thrown h ↦ himp thrown (hx thrown h)

end ThrowsOnly

/-- What a computation in two parts gives is given by its second part. -/
theorem Except.parts_of_bind {ε α β : Type} {x : Except ε α} {f : α → Except ε β} {b : β}
    (h : x >>= f = .ok b) : ∃ a, x = .ok a ∧ f a = .ok b := by
  cases x with
  | error thrown => cases h
  | ok a => exact ⟨a, rfl, h⟩

theorem Except.bind_eq_ok_iff {ε α β : Type} {x : Except ε α} {f : α → Except ε β} {b : β} :
    x >>= f = .ok b ↔ ∃ a, x = .ok a ∧ f a = .ok b := by
  refine ⟨parts_of_bind, ?_⟩
  rintro ⟨a, rfl, h⟩
  exact h

theorem Except.eq_ok_of_isOk {ε α : Type} {x : Except ε α} (h : x.isOk = true) :
    ∃ a, x = .ok a := by
  cases x with
  | ok a => exact ⟨a, rfl⟩
  | error => cases h

theorem Except.eq_ok_of_toOption {ε α : Type} {x : Except ε α} {a : α}
    (h : x.toOption = some a) : x = .ok a := by
  cases x with
  | ok found => exact congrArg Except.ok (Option.some.inj h)
  | error => cases h

/-- What a computation throws, if it does. -/
def thrown? {ε α : Type} : Except ε α → Option ε
  | .ok _ => none
  | .error thrown => some thrown

section Thrown

variable {ε α β : Type} {x : Except ε α} {thrown : ε}

theorem thrown?_eq_some_iff : thrown? x = some thrown ↔ x = .error thrown := by
  cases x <;> simp [thrown?]

theorem thrown?_eq_none_iff : thrown? x = none ↔ ∃ a, x = .ok a := by
  cases x <;> simp [thrown?]

/-- Of two computations the first that throws counts, when what the second throws does not depend on
the first. -/
theorem thrown?_bind {f : α → Except ε β} {second : Option ε}
    (h : ∀ a, thrown? (f a) = second) : thrown? (x >>= f) = (thrown? x).or second := by
  cases x with
  | error thrown => rfl
  | ok a => exact (h a).trans Option.none_or.symm

theorem thrown?_bind_ok (f : α → β) :
    thrown? (x >>= fun a ↦ (.ok (f a) : Except ε β)) = thrown? x := by
  cases x <;> rfl

end Thrown

/-! ### Data -/

/-- An error that reading or calculating has raised. -/
def Failure.IsRuntime (failure : Failure) : Prop :=
  ∃ kind message, failure = .runtime kind message

namespace Datum

mutual

/-- A datum without a normal form raises no fault of the engine. -/
theorem normal_throwsOnly (d : Datum) : ThrowsOnly Failure.IsRuntime d.normal := by
  cases d with
  | date moment =>
    cases moment with
    | none => exact .error ⟨_, _, rfl⟩
    | some m => exact .ok _
  | sequence items =>
    rw [normal]
    exact .bind (normalItems_throwsOnly items) fun _ ↦ .ok _
  | object own inherited =>
    rw [normal]
    exact .bind (normalEntries_throwsOnly [] own) fun _ ↦ .ok _
  | _ => exact .ok _

theorem normalItems_throwsOnly (items : List Datum) :
    ThrowsOnly Failure.IsRuntime (normalItems items) := by
  cases items with
  | nil => exact .ok []
  | cons item rest =>
    rw [normalItems]
    exact .bind (normal_throwsOnly item) fun _ ↦
      .bind (normalItems_throwsOnly rest) fun _ ↦ .ok _

theorem normalEntries_throwsOnly (done : Entries Value) (entries : List (Text × Datum)) :
    ThrowsOnly Failure.IsRuntime (normalEntries done entries) := by
  cases entries with
  | nil => exact .ok done
  | cons entry rest =>
    obtain ⟨key, datum⟩ := entry
    rw [normalEntries]
    split
    · exact normalEntries_throwsOnly done rest
    · exact .bind (normal_throwsOnly datum) fun _ ↦ normalEntries_throwsOnly _ rest

end

theorem objectText_throwsOnly (entries : List (Text × Datum)) :
    ThrowsOnly Failure.IsRuntime (objectText entries) := by
  unfold objectText
  split
  · exact .ok _
  · exact .ok _
  · exact .ok _
  · exact .error ⟨_, _, rfl⟩

mutual

/-- A datum that cannot be named raises no fault of the engine. -/
theorem spoken_throwsOnly (d : Datum) : ThrowsOnly Failure.IsRuntime d.spoken := by
  cases d with
  | date moment => cases moment <;> exact .ok _
  | sequence items =>
    rw [spoken]
    exact .bind (spokenItems_throwsOnly items) fun _ ↦ .ok _
  | object own inherited => exact objectText_throwsOnly _
  | _ => exact .ok _

theorem spokenItems_throwsOnly (items : List Datum) :
    ThrowsOnly Failure.IsRuntime (spokenItems items) := by
  cases items with
  | nil => exact .ok []
  | cons item rest =>
    have hfirst : ∀ first : Text, ThrowsOnly Failure.IsRuntime
        (do .ok (first :: (← spokenItems rest))) :=
      fun _ ↦ .bind (spokenItems_throwsOnly rest) fun _ ↦ .ok _
    cases item with
    | absent => exact hfirst _
    | null => exact hfirst _
    | symbol description => exact .error ⟨_, _, rfl⟩
    | _ => exact .bind (spoken_throwsOnly _) hfirst

end

end Datum

/-! ### Classified faults -/

namespace Fault

variable {place : Whereabouts} {thrown : Datum} {fault : Fault}

/-- An error that was thrown always has a fault. -/
theorem classify_failure (place : Whereabouts) (failure : Failure) :
    ∃ fault, classify place (.failure failure) = .ok fault := by
  cases failure with
  | fault f => exact ⟨f, rfl⟩
  | configuration issues => exact ⟨_, rfl⟩
  | runtime kind message => exact ⟨_, rfl⟩
  | plain name message => exact ⟨_, rfl⟩

theorem thrownMessage_throwsOnly (thrown : Datum) :
    ThrowsOnly Failure.IsRuntime (thrownMessage thrown) := by
  unfold thrownMessage
  split
  · exact .ok _
  · exact .ok _
  · exact thrown.spoken_throwsOnly

theorem classify_throwsOnly (place : Whereabouts) (thrown : Datum) :
    ThrowsOnly Failure.IsRuntime (classify place thrown) := by
  unfold classify
  split
  · exact .ok _
  · exact .bind (thrownMessage_throwsOnly thrown) fun _ ↦ .ok _

/-- A fault about a template is only found where it was thrown. -/
theorem eq_of_classify (h : classify place thrown = .ok fault) (hkind : fault.kind = .template) :
    thrown = .failure (.fault fault) := by
  unfold classify at h
  split at h
  · rw [Except.ok.inj h]
  · obtain ⟨message, -, h⟩ := Except.parts_of_bind h
    have hfault := Except.ok.inj h
    rw [← hfault] at hkind
    split at hkind <;> simp [kind] at hkind

theorem eq_of_ofThrown (h : ofThrown place thrown = .fault fault) (hkind : fault.kind = .template) :
    thrown = .failure (.fault fault) := by
  unfold ofThrown at h
  split at h
  · next found hfound =>
    obtain rfl := Failure.fault.inj h
    exact eq_of_classify hfound hkind
  · next failure hfailure =>
    obtain ⟨_, _, rfl⟩ := classify_throwsOnly place thrown failure hfailure
    cases h

end Fault

end BrowserFlow
