import BrowserFlow.Proofs.Document.Written
import BrowserFlow.Proofs.Value.Ordered

/-!
Normal forms. A datum has one exactly when the dates that it would show are
moments (`Datum.isOk_normal`), and its mappings have their keys in order at every
depth (`Datum.normal_isOrdered`), because each is built entry by entry. The datum
of a value holds no dates and no integers beyond the numbers, so it always has a
normalised normal form. Main statement: a normal form is normalised and its own
normal form where the integers of the datum are small enough for a number, and
anyway after it is normalised once more (`Datum.normal_complete`).
-/

set_option autoImplicit false
set_option relaxedAutoImplicit false

namespace BrowserFlow

/-! ### Ordered values -/

namespace Value

theorem areOrderedEntries_iff (entries : Entries Value) :
    areOrderedEntries entries = true ↔ ∀ entry ∈ entries, entry.2.isOrdered = true := by
  induction entries with
  | nil => simp [areOrderedEntries]
  | cons entry rest ih => rw [areOrderedEntries, Bool.and_eq_true, ih, List.forall_mem_cons]

/-- What is assigned to an ordered mapping leaves it ordered. -/
theorem isOrdered_assign {entries : Entries Value} (key : Text) {value : Value}
    (hentries : (mapping entries).isOrdered = true) (hvalue : value.isOrdered = true) :
    (mapping (entries.assign key value)).isOrdered = true := by
  obtain ⟨horder, hinner⟩ := isOrdered_mapping.mp hentries
  rw [areOrderedEntries_iff] at hinner
  refine isOrdered_mapping.mpr ⟨horder.assign key value, ?_⟩
  refine (areOrderedEntries_iff _).mpr fun entry hentry ↦ ?_
  rcases Entries.mem_assign hentry with hold | rfl
  · exact hinner entry hold
  · exact hvalue

theorem isOrdered_octetEntries (octets : List UInt8) :
    (mapping (Datum.octetEntries octets)).isOrdered = true := by
  refine isOrdered_mapping.mpr ⟨(Document.settled_octetEntries octets).1, ?_⟩
  refine (areOrderedEntries_iff _).mpr fun entry hentry ↦ ?_
  obtain ⟨index, hindex, rfl⟩ := List.mem_mapIdx.mp hentry
  rfl

/-- The own entries of an error are in order, and none of them is a mapping. -/
theorem isOrdered_failure (f : Failure) : (mapping f.entries).isOrdered = true := by
  have hissues : ∀ issues : List Text, areOrdered (issues.map .text) = true := fun issues ↦
    isOrdered_sequence.mpr (by simp [isOrdered])
  refine isOrdered_mapping.mpr ⟨Document.inOrder_failure f, ?_⟩
  rw [areOrderedEntries_iff]
  cases f with
  | fault f => cases f <;> simp [Failure.entries, Fault.details, hissues, isOrdered]
  | configuration issues => simp [Failure.entries, hissues, isOrdered]
  | runtime kind message => simp [Failure.entries]
  | plain name message => cases name <;> simp [Failure.entries, isOrdered]

end Value

namespace Datum

/-! ### The order of a normal form -/

mutual

/-- A normal form is ordered. -/
theorem normal_isOrdered {d : Datum} {value : Value} (h : d.normal = .ok value) :
    value.isOrdered = true := by
  cases d with
  | number x =>
    obtain rfl := Except.ok.inj h
    split <;> rfl
  | date moment =>
    cases moment with
    | none => cases h
    | some m =>
      obtain rfl := Except.ok.inj h
      rfl
  | bytes octets =>
    obtain rfl := Except.ok.inj h
    exact Value.isOrdered_octetEntries octets
  | failure f =>
    obtain rfl := Except.ok.inj h
    exact Value.isOrdered_failure f
  | sequence items =>
    rw [normal] at h
    obtain ⟨found, hfound, h⟩ := Except.parts_of_bind h
    obtain rfl := Except.ok.inj h
    exact Value.isOrdered_sequence.mpr (normalItems_isOrdered hfound)
  | object own inherited =>
    rw [normal] at h
    obtain ⟨found, hfound, h⟩ := Except.parts_of_bind h
    obtain rfl := Except.ok.inj h
    exact normalEntries_isOrdered (by decide) hfound
  | absent | null | bool _ | text _ | integer _ | symbol _ | function | buffer _ | map | set
  | pattern _ =>
    obtain rfl := Except.ok.inj h
    rfl

theorem normalItems_isOrdered {items : List Datum} {values : List Value}
    (h : normalItems items = .ok values) : ∀ value ∈ values, value.isOrdered = true := by
  cases items with
  | nil =>
    obtain rfl := Except.ok.inj h
    simp
  | cons item rest =>
    rw [normalItems] at h
    obtain ⟨first, hfirst, h⟩ := Except.parts_of_bind h
    obtain ⟨others, hothers, h⟩ := Except.parts_of_bind h
    obtain rfl := Except.ok.inj h
    exact List.forall_mem_cons.mpr ⟨normal_isOrdered hfirst, normalItems_isOrdered hothers⟩

theorem normalEntries_isOrdered {done values : Entries Value} {entries : List (Text × Datum)}
    (hdone : (Value.mapping done).isOrdered = true) (h : normalEntries done entries = .ok values) :
    (Value.mapping values).isOrdered = true := by
  cases entries with
  | nil =>
    obtain rfl := Except.ok.inj h
    exact hdone
  | cons entry rest =>
    obtain ⟨key, datum⟩ := entry
    rw [normalEntries] at h
    split at h
    · exact normalEntries_isOrdered hdone h
    · obtain ⟨first, hfirst, h⟩ := Except.parts_of_bind h
      have hassigned := Value.isOrdered_assign key hdone (normal_isOrdered hfirst)
      exact normalEntries_isOrdered hassigned h

end

/-! ### Which data have a normal form -/

mutual

/-- Whether the dates that the normal form of a datum shows are moments. -/
def hasMoments : Datum → Bool
  | .date moment => moment.isSome
  | .sequence items => haveMoments items
  | .object own _ => entriesHaveMoments own
  | _ => true

/-- Whether the dates of some items are moments. -/
def haveMoments : List Datum → Bool
  | [] => true
  | item :: rest => hasMoments item && haveMoments rest

/-- Whether the dates of some entries are moments. -/
def entriesHaveMoments : List (Text × Datum) → Bool
  | [] => true
  | (_, datum) :: rest => hasMoments datum && entriesHaveMoments rest

end

theorem hasMoments_of_isPassedOver {d : Datum} (h : d.isPassedOver = true) :
    d.hasMoments = true := by
  cases d <;> first | rfl | cases h

mutual

/-- A datum has a normal form exactly when its dates are moments. -/
theorem isOk_normal (d : Datum) : d.normal.isOk = d.hasMoments := by
  cases d with
  | date moment => cases moment <;> rfl
  | sequence items =>
    rw [normal, hasMoments, ← isOk_normalItems items]
    cases normalItems items <;> rfl
  | object own inherited =>
    rw [normal, hasMoments, ← isOk_normalEntries [] own]
    cases normalEntries [] own <;> rfl
  | _ => rfl

theorem isOk_normalItems (items : List Datum) : (normalItems items).isOk = haveMoments items := by
  cases items with
  | nil => rfl
  | cons item rest =>
    rw [normalItems, haveMoments, ← isOk_normal item, ← isOk_normalItems rest]
    cases item.normal <;> cases normalItems rest <;> rfl

theorem isOk_normalEntries (done : Entries Value) (entries : List (Text × Datum)) :
    (normalEntries done entries).isOk = entriesHaveMoments entries := by
  cases entries with
  | nil => rfl
  | cons entry rest =>
    obtain ⟨key, datum⟩ := entry
    rw [normalEntries, entriesHaveMoments]
    split
    · next hpassed =>
      rw [hasMoments_of_isPassedOver hpassed, isOk_normalEntries done rest, Bool.true_and]
    · rw [← isOk_normal datum]
      cases datum.normal with
      | error failure => rfl
      | ok value => exact isOk_normalEntries (done.assign key value) rest

end

theorem exists_normal_iff (d : Datum) :
    (∃ value, d.normal = .ok value) ↔ d.hasMoments = true := by
  rw [← isOk_normal]
  constructor
  · rintro ⟨value, hvalue⟩
    rw [hvalue]
    rfl
  · exact Except.eq_ok_of_isOk

/-! ### Data of values -/

mutual

/-- The datum of a value shows no dates. -/
theorem hasMoments_ofValue (value : Value) : (ofValue value).hasMoments = true := by
  cases value with
  | sequence items => rw [ofValue, hasMoments, haveMoments_ofItems items]
  | mapping entries => rw [ofValue, hasMoments, entriesHaveMoments_ofEntries entries]
  | null | bool _ | number _ | text _ => rfl

theorem haveMoments_ofItems (items : List Value) : haveMoments (ofItems items) = true := by
  cases items with
  | nil => rfl
  | cons item rest =>
    rw [ofItems, haveMoments, hasMoments_ofValue item, haveMoments_ofItems rest, Bool.and_self]

theorem entriesHaveMoments_ofEntries (entries : List (Text × Value)) :
    entriesHaveMoments (ofEntries entries) = true := by
  cases entries with
  | nil => rfl
  | cons entry rest =>
    rw [ofEntries, entriesHaveMoments, hasMoments_ofValue entry.2,
      entriesHaveMoments_ofEntries rest, Bool.and_self]

end

mutual

/-- The datum of a value shows no integers beyond its numbers. -/
theorem hasFiniteIntegers_ofValue (value : Value) :
    (ofValue value).hasFiniteIntegers = true := by
  cases value with
  | sequence items => rw [ofValue, hasFiniteIntegers, haveFiniteIntegers_ofItems items]
  | mapping entries =>
    rw [ofValue, hasFiniteIntegers, entriesHaveFiniteIntegers_ofEntries entries]
  | null | bool _ | number _ | text _ => rfl

theorem haveFiniteIntegers_ofItems (items : List Value) :
    haveFiniteIntegers (ofItems items) = true := by
  cases items with
  | nil => rfl
  | cons item rest =>
    rw [ofItems, haveFiniteIntegers, hasFiniteIntegers_ofValue item,
      haveFiniteIntegers_ofItems rest, Bool.and_self]

theorem entriesHaveFiniteIntegers_ofEntries (entries : List (Text × Value)) :
    entriesHaveFiniteIntegers (ofEntries entries) = true := by
  cases entries with
  | nil => rfl
  | cons entry rest =>
    rw [ofEntries, entriesHaveFiniteIntegers, hasFiniteIntegers_ofValue entry.2,
      entriesHaveFiniteIntegers_ofEntries rest, Bool.and_self]

end

/-- A normal form is its own exactly when it is normalised. -/
theorem normal_ofValue_iff {value : Value} (hordered : value.isOrdered = true) :
    (ofValue value).normal = .ok value ↔ value.isNormalised = true :=
  ⟨normal_normalised (hasFiniteIntegers_ofValue value), fun h ↦ normal_ofValue h hordered⟩

/-- A datum has a normal form when the dates that it shows are moments. The normal form is ordered.
Where the integers of the datum are small enough for a number, the numbers of the normal form are
all finite; and it is its own normal form exactly when they are. Whatever the datum, the normal form
of the normal form has only finite numbers and is left as it is from then on. -/
theorem normal_complete (d : Datum) :
    ((∃ value, d.normal = .ok value) ↔ d.hasMoments = true) ∧
      ∀ value, d.normal = .ok value →
        value.isOrdered = true ∧
          (d.hasFiniteIntegers = true → value.isNormalised = true) ∧
          ((ofValue value).normal = .ok value ↔ value.isNormalised = true) ∧
          ∃ again, (ofValue value).normal = .ok again ∧ again.isNormalised = true ∧
            (ofValue again).normal = .ok again := by
  refine ⟨exists_normal_iff d, fun value h ↦ ?_⟩
  have hordered : value.isOrdered = true := normal_isOrdered h
  obtain ⟨again, hagain⟩ := (exists_normal_iff (ofValue value)).mpr (hasMoments_ofValue value)
  have hnormalised : again.isNormalised = true :=
    normal_normalised (hasFiniteIntegers_ofValue value) hagain
  exact ⟨hordered, fun hintegers ↦ normal_normalised hintegers h, normal_ofValue_iff hordered,
    again, hagain, hnormalised, normal_ofValue hnormalised (normal_isOrdered hagain)⟩

/-- A row of what is absent, no number, an integer, a date, a function and octets, below a key that
is written after an index. -/
def mixedRow : Datum :=
  .object [("row", .sequence [.absent, .number .nan, .integer 3, .date (some ⟨0⟩), .function,
    .buffer [104, 105]]), ("0", .set)] []

theorem normal_complete_mixedRow :
    ∃ value, mixedRow.normal = .ok value ∧ value.isNormalised = true ∧
      (ofValue value).normal = .ok value := by
  obtain ⟨hreturns, hcomplete⟩ := normal_complete mixedRow
  obtain ⟨value, hvalue⟩ := hreturns.mpr (by decide)
  obtain ⟨-, hnormalised, hown, -⟩ := hcomplete value hvalue
  have hfinite : value.isNormalised = true := hnormalised (by decide +kernel)
  exact ⟨value, hvalue, hfinite, hown.mpr hfinite⟩

/-- An integer that is too large for a number has the infinite one as its normal form. -/
theorem not_forall_normal_complete :
    ¬ ∀ (d : Datum) (value : Value), d.normal = .ok value →
      value.isNormalised = true ∧ (ofValue value).normal = .ok value := by
  intro h
  have hinfinite : (integer (10 ^ 400)).normal = .ok (.number (.infinite false)) := by
    have hnumber : Number.ofInt (10 ^ 400) = .infinite false := by decide +kernel
    rw [normal, hnumber]
  exact Bool.false_ne_true (h _ _ hinfinite).1

end Datum

end BrowserFlow
