import BrowserFlow.Proofs.Value.Normalised

/-!
Ordered values: those whose mappings, at every depth, have their keys in order.
A mapping that is built entry by entry has no others. A normalised and ordered
value is its own normal form (`Datum.normal_ofValue`). The plain form of a value
has every zero without its sign, and is otherwise the value; it is normalised and
ordered where the value is.
-/

set_option autoImplicit false
set_option relaxedAutoImplicit false

namespace BrowserFlow

namespace Value

/-! ### Plain forms -/

mutual

/-- The value, with every zero without its sign. -/
def plain : Value → Value
  | .number x => .number x.plain
  | .sequence items => .sequence (plainItems items)
  | .mapping entries => .mapping (plainEntries entries)
  | other => other

/-- Items, with every zero without its sign. -/
def plainItems : List Value → List Value
  | [] => []
  | item :: rest => plain item :: plainItems rest

/-- Entries, with every zero without its sign. -/
def plainEntries : List (Text × Value) → List (Text × Value)
  | [] => []
  | (key, value) :: rest => (key, plain value) :: plainEntries rest

end

theorem keys_plainEntries (entries : Entries Value) :
    Entries.keys (plainEntries entries) = Entries.keys entries := by
  induction entries with
  | nil => rfl
  | cons entry rest ih => simpa [plainEntries, Entries.keys] using ih

/-! ### Ordered values -/

mutual

/-- Whether the keys of a value are in order, at every depth. -/
def isOrdered : Value → Bool
  | .sequence items => areOrdered items
  | .mapping entries =>
    decide (Entries.KeysInOrder (Entries.keys entries)) && areOrderedEntries entries
  | _ => true

/-- Whether the keys of some items are in order. -/
def areOrdered : List Value → Bool
  | [] => true
  | item :: rest => isOrdered item && areOrdered rest

/-- Whether the keys below some entries are in order. -/
def areOrderedEntries : List (Text × Value) → Bool
  | [] => true
  | (_, value) :: rest => isOrdered value && areOrderedEntries rest

end

theorem isOrdered_mapping {entries : Entries Value} :
    (mapping entries).isOrdered = true ↔
      Entries.InOrder entries ∧ areOrderedEntries entries = true := by
  rw [isOrdered, Bool.and_eq_true, decide_eq_true_eq, Entries.InOrder]

theorem isOrdered_sequence {items : List Value} :
    (sequence items).isOrdered = true ↔ ∀ item ∈ items, item.isOrdered = true := by
  rw [isOrdered]
  induction items with
  | nil => simp [areOrdered]
  | cons item rest ih => rw [areOrdered, Bool.and_eq_true, ih, List.forall_mem_cons]

/-! ### What a plain form keeps -/

mutual

/-- The plain form of a value is normalised where the value is. -/
theorem plain_isNormalised (value : Value) : value.plain.isNormalised = value.isNormalised := by
  cases value with
  | number x => rw [plain, isNormalised, isNormalised, Number.plain_isFinite]
  | sequence items => rw [plain, isNormalised, isNormalised, plainItems_areNormalised items]
  | mapping entries => rw [plain, isNormalised, isNormalised, plainEntries_areNormalised entries]
  | null | bool _ | text _ => rfl

theorem plainItems_areNormalised (items : List Value) :
    areNormalised (plainItems items) = areNormalised items := by
  cases items with
  | nil => rw [plainItems]
  | cons item rest =>
    rw [plainItems, areNormalised, areNormalised, plain_isNormalised item,
      plainItems_areNormalised rest]

theorem plainEntries_areNormalised (entries : List (Text × Value)) :
    areNormalisedEntries (plainEntries entries) = areNormalisedEntries entries := by
  cases entries with
  | nil => rw [plainEntries]
  | cons entry rest =>
    rw [plainEntries, areNormalisedEntries, areNormalisedEntries, plain_isNormalised entry.2,
      plainEntries_areNormalised rest]

end

mutual

/-- The plain form of a value is ordered where the value is. -/
theorem plain_isOrdered (value : Value) : value.plain.isOrdered = value.isOrdered := by
  cases value with
  | sequence items => rw [plain, isOrdered, isOrdered, plainItems_areOrdered items]
  | mapping entries =>
    rw [plain, isOrdered, isOrdered, keys_plainEntries, plainEntries_areOrdered entries]
  | null | bool _ | number _ | text _ => rfl

theorem plainItems_areOrdered (items : List Value) :
    areOrdered (plainItems items) = areOrdered items := by
  cases items with
  | nil => rw [plainItems]
  | cons item rest =>
    rw [plainItems, areOrdered, areOrdered, plain_isOrdered item, plainItems_areOrdered rest]

theorem plainEntries_areOrdered (entries : List (Text × Value)) :
    areOrderedEntries (plainEntries entries) = areOrderedEntries entries := by
  cases entries with
  | nil => rw [plainEntries]
  | cons entry rest =>
    rw [plainEntries, areOrderedEntries, areOrderedEntries, plain_isOrdered entry.2,
      plainEntries_areOrdered rest]

end

end Value

/-! ### Normal forms -/

namespace Datum

theorem isPassedOver_ofValue (value : Value) : (ofValue value).isPassedOver = false := by
  cases value <;> rfl

mutual

/-- A normalised and ordered value is its own normal form. -/
theorem normal_ofValue {value : Value} (hnormalised : value.isNormalised = true)
    (hordered : value.isOrdered = true) : (ofValue value).normal = .ok value := by
  cases value with
  | number x =>
    rw [Value.isNormalised] at hnormalised
    rw [ofValue, normal, if_pos hnormalised]
  | sequence items =>
    rw [Value.isNormalised] at hnormalised
    rw [Value.isOrdered] at hordered
    rw [ofValue, normal, normalItems_ofItems hnormalised hordered]
    rfl
  | mapping entries =>
    rw [Value.isNormalised] at hnormalised
    obtain ⟨horder, hinner⟩ := Value.isOrdered_mapping.mp hordered
    have hentries := normalEntries_ofEntries (List.nil_append entries ▸ horder) hnormalised hinner
    rw [ofValue, normal, hentries]
    rfl
  | null | bool _ | text _ => rfl

theorem normalItems_ofItems {items : List Value} (hnormalised : Value.areNormalised items = true)
    (hordered : Value.areOrdered items = true) : normalItems (ofItems items) = .ok items := by
  cases items with
  | nil => rfl
  | cons item rest =>
    rw [Value.areNormalised, Bool.and_eq_true] at hnormalised
    rw [Value.areOrdered, Bool.and_eq_true] at hordered
    rw [ofItems, normalItems, normal_ofValue hnormalised.1 hordered.1,
      normalItems_ofItems hnormalised.2 hordered.2]
    rfl

/-- Entries in order are assigned one behind the other. -/
theorem normalEntries_ofEntries {done entries : Entries Value}
    (horder : Entries.InOrder (done ++ entries))
    (hnormalised : Value.areNormalisedEntries entries = true)
    (hordered : Value.areOrderedEntries entries = true) :
    normalEntries done (ofEntries entries) = .ok (done ++ entries) := by
  cases entries with
  | nil => rw [ofEntries, normalEntries, List.append_nil]
  | cons entry rest =>
    obtain ⟨key, value⟩ := entry
    rw [Value.areNormalisedEntries, Bool.and_eq_true] at hnormalised
    rw [Value.areOrderedEntries, Bool.and_eq_true] at hordered
    have hsplit : done ++ (key, value) :: rest = (done ++ [(key, value)]) ++ rest := by simp
    rw [hsplit] at horder ⊢
    have hfirst : Entries.InOrder (done ++ [(key, value)]) :=
      horder.sublist ((List.sublist_append_left _ _).map _)
    rw [ofEntries, normalEntries, isPassedOver_ofValue, if_neg Bool.false_ne_true,
      normal_ofValue hnormalised.1 hordered.1]
    change normalEntries (done.assign key value) (ofEntries rest) = _
    rw [Entries.assign_eq_append hfirst]
    exact normalEntries_ofEntries horder hnormalised.2 hordered.2

end

end Datum

end BrowserFlow
