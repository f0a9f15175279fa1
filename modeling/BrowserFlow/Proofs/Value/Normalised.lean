import BrowserFlow.Proofs.Fault.Thrown
import BrowserFlow.Proofs.Number.Finite
import BrowserFlow.Proofs.Value.Order
import BrowserFlow.Run.Call

/-!
Normalised values: those whose numbers are all finite. Where the scope holds only
these, an expression evaluates to one (`Expression.evaluate_normalised`): every
operation checks its result, and a length is a count. Only a literal can be too
large. So a template evaluates to one, and a value whose texts are templates
(`Value.resolve_normalised`). The normal form of a datum is one, unless the datum
holds an integer too large for a number (`Datum.normal_normalised`); a value that
was stored is loaded as it is (`Datum.stored_ofValue`).
-/

set_option autoImplicit false
set_option relaxedAutoImplicit false

namespace BrowserFlow

/-! ### Values -/

namespace Value

mutual

/-- Whether the numbers of a value are all finite. -/
def isNormalised : Value → Bool
  | .number x => x.isFinite
  | .sequence items => areNormalised items
  | .mapping entries => areNormalisedEntries entries
  | _ => true

/-- Whether the numbers of some items are all finite. -/
def areNormalised : List Value → Bool
  | [] => true
  | item :: rest => isNormalised item && areNormalised rest

/-- Whether the numbers of some entries are all finite. -/
def areNormalisedEntries : List (Text × Value) → Bool
  | [] => true
  | (_, value) :: rest => isNormalised value && areNormalisedEntries rest

end

theorem areNormalised_iff (items : List Value) :
    areNormalised items = true ↔ ∀ item ∈ items, item.isNormalised = true := by
  induction items with
  | nil => simp [areNormalised]
  | cons item rest ih => simp [areNormalised, ih]

theorem areNormalisedEntries_iff (entries : Entries Value) :
    areNormalisedEntries entries = true ↔ ∀ entry ∈ entries, entry.2.isNormalised = true := by
  induction entries with
  | nil => simp [areNormalisedEntries]
  | cons entry rest ih => simp [areNormalisedEntries, ih]

@[simp] theorem isNormalised_number (x : Number) : (number x).isNormalised = x.isFinite := by
  rw [isNormalised]

@[simp] theorem isNormalised_sequence (items : List Value) :
    (sequence items).isNormalised = true ↔ ∀ item ∈ items, item.isNormalised = true := by
  rw [isNormalised, areNormalised_iff]

@[simp] theorem isNormalised_mapping (entries : Entries Value) :
    (mapping entries).isNormalised = true ↔ ∀ entry ∈ entries, entry.2.isNormalised = true := by
  rw [isNormalised, areNormalisedEntries_iff]

end Value

namespace Entries

/-- What is assigned to normalised entries leaves them normalised. -/
theorem normalised_assign {entries : Entries Value} (key : Text) {value : Value}
    (hentries : ∀ entry ∈ entries, entry.2.isNormalised = true)
    (hvalue : value.isNormalised = true) :
    ∀ entry ∈ entries.assign key value, entry.2.isNormalised = true := by
  intro entry hentry
  rcases mem_assign hentry with hbefore | rfl
  · exact hentries entry hbefore
  · exact hvalue

end Entries

/-! ### Expressions -/

/-- A scope whose values are normalised. -/
def Scope.IsNormalised (scope : Scope) : Prop :=
  ∀ name value, scope.find? name = some value → value.isNormalised = true

/-- Whether an expression is no literal that is too large, negated or not. What is calculated from
one is found too large. -/
def Expression.isNormalised : Expression → Bool
  | .literal value => value.isNormalised
  | .path _ _ => true
  | .negate operand => operand.isNormalised
  | .binary _ _ _ => true

/-- A step into a normalised value reads a normalised value; a length is a count. -/
theorem Segment.read_normalised {target value : Value} {segment : Segment} {reference : Text}
    (htarget : target.isNormalised = true) (h : segment.read target reference = .ok value) :
    value.isNormalised = true := by
  unfold read at h
  split at h
  · cases h
  · next items =>
    split at h
    · obtain rfl := Except.ok.inj h
      rw [Value.isNormalised_number]
      exact Number.ofCount_isFinite _
    · split at h
      · next item hitem =>
        obtain rfl := Except.ok.inj h
        obtain ⟨place, -, hplace⟩ := Option.bind_eq_some_iff.mp hitem
        exact (Value.isNormalised_sequence items).mp htarget _ (List.mem_of_getElem? hplace)
      · cases h
  · next entries =>
    split at h
    · next found hfound =>
      obtain rfl := Except.ok.inj h
      exact (Value.isNormalised_mapping entries).mp htarget _ (Entries.mem_of_find? hfound)
    · cases h
  · split at h
    · obtain rfl := Except.ok.inj h
      rw [Value.isNormalised_number]
      exact Number.ofCount_isFinite _
    · cases h
  · cases h

namespace Expression

variable {scope : Scope}

theorem follow_normalised {segments : List Segment} {target value : Value} {reference : Text}
    (htarget : target.isNormalised = true) (h : follow target reference segments = .ok value) :
    value.isNormalised = true := by
  induction segments generalizing target reference with
  | nil =>
    obtain rfl := Except.ok.inj h
    exact htarget
  | cons segment rest ih =>
    rw [follow] at h
    split at h
    · cases h
    · next hread => exact ih (Segment.read_normalised htarget hread) h

/-- An operator gives a text, or a number that it has found finite. -/
theorem combine_normalised {operator : Operator} {left right value : Value}
    (h : combine operator left right = .ok value) : value.isNormalised = true := by
  unfold combine at h
  split at h
  · obtain rfl := Except.ok.inj h
    rfl
  · split at h
    · unfold calculate at h
      dsimp only at h
      split at h
      · cases h
      · split at h
        · next hfinite =>
          obtain rfl := Except.ok.inj h
          exact hfinite
        · cases h
    · cases h

/-- Where the scope is normalised, the value of an expression is normalised that is no literal which
is too large. -/
theorem evaluate_normalised (hscope : scope.IsNormalised) {expression : Expression} {value : Value}
    (hliteral : expression.isNormalised = true) (h : expression.evaluate scope = .ok value) :
    value.isNormalised = true := by
  induction expression generalizing value with
  | literal written =>
    obtain rfl := Except.ok.inj h
    exact hliteral
  | path root segments =>
    rw [evaluate] at h
    split at h
    · next hroot => exact follow_normalised (hscope _ _ hroot) h
    · cases h
  | negate operand ih =>
    obtain ⟨found, hfound, h⟩ := Except.parts_of_bind h
    split at h
    · obtain rfl := Except.ok.inj h
      rw [Value.isNormalised_number]
      have hoperand := ih hliteral hfound
      rw [Value.isNormalised_number] at hoperand
      exact Number.neg_isFinite hoperand
    · cases h
  | binary operator left right _ _ =>
    obtain ⟨_, -, h⟩ := Except.parts_of_bind h
    obtain ⟨_, -, h⟩ := Except.parts_of_bind h
    exact combine_normalised h

end Expression

/-! ### Templates -/

/-- Whether a template stands for a normalised value where the scope is normalised: it is not just a
literal that is too large. -/
def Template.isFinite (source : Text) : Bool :=
  match read source with
  | .ok [.placeholder expression] => expression.isNormalised
  | _ => true

theorem Template.resolve_normalised {scope : Scope} (hscope : scope.IsNormalised) {source : Text}
    {value : Value} (hsource : hasPlaceholder source = true → isFinite source = true)
    (h : resolve scope source = .ok value) : value.isNormalised = true := by
  unfold resolve at h
  split at h
  · next hplaceholder =>
    obtain ⟨parts, hparts, h⟩ := Except.parts_of_bind h
    unfold evaluateParts at h
    split at h
    · have hliteral := hsource hplaceholder
      rw [isFinite, hparts] at hliteral
      exact Expression.evaluate_normalised hscope hliteral h
    · obtain ⟨text, -, h⟩ := Except.parts_of_bind h
      obtain rfl := Except.ok.inj h
      rfl
  · obtain rfl := Except.ok.inj h
    rfl

namespace Value

/-- Whether the numbers of a value of a document are finite, those that its templates stand for as
well. -/
def isFinite (value : Value) : Bool := value.isNormalised && value.templates.all Template.isFinite

theorem isFinite_iff {value : Value} :
    value.isFinite = true ↔ value.isNormalised = true ∧
      ∀ source ∈ value.templates, Template.isFinite source = true := by
  rw [isFinite, Bool.and_eq_true, List.all_eq_true]

theorem mem_templatesOfItems {items : List Value} {item : Value} (hitem : item ∈ items)
    {source : Text} (hsource : source ∈ item.templates) : source ∈ templatesOfItems items := by
  induction items with
  | nil => cases hitem
  | cons first rest ih =>
    rw [templatesOfItems]
    rcases List.mem_cons.mp hitem with rfl | hrest
    · exact List.mem_append_left _ hsource
    · exact List.mem_append_right _ (ih hrest)

theorem mem_templatesOfEntries {entries : Entries Value} {entry : Text × Value}
    (hentry : entry ∈ entries) {source : Text} (hsource : source ∈ entry.2.templates) :
    source ∈ templatesOfEntries entries := by
  induction entries with
  | nil => cases hentry
  | cons first rest ih =>
    rw [templatesOfEntries]
    rcases List.mem_cons.mp hentry with rfl | hrest
    · exact List.mem_append_left _ hsource
    · exact List.mem_append_right _ (ih hrest)

theorem isFinite_item {items : List Value} (h : (sequence items).isFinite = true) :
    ∀ item ∈ items, item.isFinite = true := by
  intro item hitem
  obtain ⟨hnormalised, htemplates⟩ := isFinite_iff.mp h
  rw [templates] at htemplates
  exact isFinite_iff.mpr ⟨(isNormalised_sequence items).mp hnormalised item hitem,
    fun source hsource ↦ htemplates source (mem_templatesOfItems hitem hsource)⟩

theorem isFinite_entry {entries : Entries Value} (h : (mapping entries).isFinite = true) :
    ∀ entry ∈ entries, entry.2.isFinite = true := by
  intro entry hentry
  obtain ⟨hnormalised, htemplates⟩ := isFinite_iff.mp h
  rw [templates] at htemplates
  exact isFinite_iff.mpr ⟨(isNormalised_mapping entries).mp hnormalised entry hentry,
    fun source hsource ↦ htemplates source (mem_templatesOfEntries hentry hsource)⟩

/-- What a text stands for is normalised. -/
theorem resolve_text_normalised {scope : Scope} (hscope : scope.IsNormalised) {source : Text}
    (h : (text source).isFinite = true) {resolved : Value}
    (hresolved : Template.resolve scope source = .ok resolved) : resolved.isNormalised = true := by
  refine Template.resolve_normalised hscope (fun hplaceholder ↦ ?_) hresolved
  exact (isFinite_iff.mp h).2 source (by simp [templates, hplaceholder])

mutual

/-- A value of a document whose numbers are finite stands for a normalised value. -/
theorem resolve_normalised {scope : Scope} (hscope : scope.IsNormalised) {value resolved : Value}
    (hvalue : value.isFinite = true) (h : value.resolve scope = .ok resolved) :
    resolved.isNormalised = true := by
  cases value with
  | text source =>
    rw [resolve] at h
    exact resolve_text_normalised hscope hvalue h
  | sequence items =>
    rw [resolve] at h
    obtain ⟨found, hfound, h⟩ := Except.parts_of_bind h
    obtain rfl := Except.ok.inj h
    exact (isNormalised_sequence _).mpr
      (resolveItems_normalised hscope (isFinite_item hvalue) hfound)
  | mapping entries =>
    rw [resolve] at h
    obtain ⟨found, hfound, h⟩ := Except.parts_of_bind h
    obtain rfl := Except.ok.inj h
    exact (isNormalised_mapping _).mpr
      (resolveEntries_normalised hscope (by simp) (isFinite_entry hvalue) hfound)
  | null | bool _ =>
    obtain rfl := Except.ok.inj h
    rfl
  | number x =>
    obtain rfl := Except.ok.inj h
    exact (isFinite_iff.mp hvalue).1
termination_by structural value

theorem resolveItems_normalised {scope : Scope} (hscope : scope.IsNormalised)
    {items resolved : List Value} (hitems : ∀ item ∈ items, item.isFinite = true)
    (h : resolveItems scope items = .ok resolved) :
    ∀ item ∈ resolved, item.isNormalised = true := by
  cases items with
  | nil =>
    obtain rfl := Except.ok.inj h
    simp
  | cons item rest =>
    obtain ⟨hitem, hrest⟩ := List.forall_mem_cons.mp hitems
    rw [resolveItems] at h
    obtain ⟨first, hfirst, h⟩ := Except.parts_of_bind h
    obtain ⟨others, hothers, h⟩ := Except.parts_of_bind h
    obtain rfl := Except.ok.inj h
    exact List.forall_mem_cons.mpr
      ⟨resolve_normalised hscope hitem hfirst, resolveItems_normalised hscope hrest hothers⟩
termination_by structural items

theorem resolveEntries_normalised {scope : Scope} (hscope : scope.IsNormalised)
    {done entries resolved : Entries Value} (hdone : ∀ entry ∈ done, entry.2.isNormalised = true)
    (hentries : ∀ entry ∈ entries, entry.2.isFinite = true)
    (h : resolveEntries scope done entries = .ok resolved) :
    ∀ entry ∈ resolved, entry.2.isNormalised = true := by
  cases entries with
  | nil =>
    obtain rfl := Except.ok.inj h
    exact hdone
  | cons entry rest =>
    obtain ⟨key, value⟩ := entry
    obtain ⟨hvalue, hrest⟩ := List.forall_mem_cons.mp hentries
    rw [resolveEntries] at h
    obtain ⟨first, hfirst, h⟩ := Except.parts_of_bind h
    have hassigned := Entries.normalised_assign key hdone (resolve_normalised hscope hvalue hfirst)
    exact resolveEntries_normalised hscope hassigned hrest h
termination_by structural entries

end

end Value

theorem Amount.isFinite_of_numeral? {t : Text} {x : Number} (h : numeral? t = some x) :
    x.isFinite = true := by
  unfold numeral? at h
  split at h
  · cases h
  · exact (Option.filter_eq_some_iff.mp h).2

/-- An amount of a document stands for a finite number: one that is read off a text is. -/
theorem Amount.resolve_isFinite {scope : Scope} (hscope : scope.IsNormalised) {amount : Amount}
    {label : Text} {x : Number} (hamount : amount.toValue.isFinite = true)
    (h : amount.resolve scope label = .ok x) : x.isFinite = true := by
  cases amount with
  | number y =>
    obtain rfl := Except.ok.inj h
    exact (Value.isFinite_iff.mp hamount).1
  | template source =>
    obtain ⟨value, hvalue, h⟩ := Except.parts_of_bind h
    split at h
    · obtain rfl := Except.ok.inj h
      exact Value.resolve_text_normalised hscope hamount hvalue
    · split at h
      · next hnumeral =>
        obtain rfl := Except.ok.inj h
        exact isFinite_of_numeral? hnumeral
      · cases h
    · cases h

/-! ### Data -/

namespace Datum

mutual

/-- Whether the integers that the normal form of a datum holds are small enough for a number. -/
def hasFiniteIntegers : Datum → Bool
  | .integer n => (Number.ofInt n).isFinite
  | .sequence items => haveFiniteIntegers items
  | .object own _ => entriesHaveFiniteIntegers own
  | _ => true

/-- Whether the integers of some items are small enough for a number. -/
def haveFiniteIntegers : List Datum → Bool
  | [] => true
  | item :: rest => hasFiniteIntegers item && haveFiniteIntegers rest

/-- Whether the integers of some entries are small enough for a number. -/
def entriesHaveFiniteIntegers : List (Text × Datum) → Bool
  | [] => true
  | (_, datum) :: rest => hasFiniteIntegers datum && entriesHaveFiniteIntegers rest

end

mutual

theorem asValue_ofValue (value : Value) : (ofValue value).asValue = value := by
  cases value with
  | sequence items => rw [ofValue, asValue, itemsAsValues_ofItems items]
  | mapping entries => rw [ofValue, asValue, entriesAsValues_ofEntries entries]
  | null | bool _ | number _ | text _ => rfl

theorem itemsAsValues_ofItems (items : List Value) : itemsAsValues (ofItems items) = items := by
  cases items with
  | nil => rfl
  | cons item rest => rw [ofItems, itemsAsValues, asValue_ofValue item, itemsAsValues_ofItems rest]

theorem entriesAsValues_ofEntries (entries : List (Text × Value)) :
    entriesAsValues (ofEntries entries) = entries := by
  cases entries with
  | nil => rfl
  | cons entry rest =>
    obtain ⟨key, value⟩ := entry
    rw [ofEntries, entriesAsValues, asValue_ofValue value, entriesAsValues_ofEntries rest]

end

/-- A value that was stored is loaded as it is. -/
theorem stored_ofValue (value : Value) : (ofValue value).stored = some value := by
  have hvalue := asValue_ofValue value
  cases value <;> exact congrArg some hvalue

theorem octetEntries_normalised (octets : List UInt8) :
    ∀ entry ∈ octetEntries octets, entry.2.isNormalised = true := by
  intro entry hentry
  obtain ⟨index, hindex, rfl⟩ := List.mem_mapIdx.mp hentry
  rw [Value.isNormalised_number]
  exact Number.ofNat_isFinite (Nat.le_trans (Nat.le_of_lt (UInt8.toNat_lt _)) (by decide))

end Datum

theorem Fault.details_normalised (f : Fault) :
    ∀ entry ∈ f.details, entry.2.isNormalised = true := by
  cases f with
  | exhausted step attempts last =>
    simp [details, Value.isNormalised, Number.ofCount_isFinite]
  | _ => simp [details, Value.isNormalised, Value.areNormalised_iff]

/-- The own entries of an error are texts, issues and counts. -/
theorem Failure.entries_normalised (f : Failure) :
    ∀ entry ∈ f.entries, entry.2.isNormalised = true := by
  cases f with
  | fault f =>
    have hdetails := f.details_normalised
    simpa [entries, Value.isNormalised] using hdetails
  | configuration issues => simp [entries, Value.isNormalised, Value.areNormalised_iff]
  | runtime kind message => simp [entries]
  | plain name message => cases name <;> simp [entries, Value.isNormalised]

namespace Datum

mutual

/-- The normal form of a datum is normalised, where its integers are small enough. -/
theorem normal_normalised {d : Datum} {value : Value} (hd : d.hasFiniteIntegers = true)
    (h : d.normal = .ok value) : value.isNormalised = true := by
  cases d with
  | number x =>
    obtain rfl := Except.ok.inj h
    cases hfinite : x.isFinite <;> simp [Value.isNormalised, hfinite]
  | integer n =>
    obtain rfl := Except.ok.inj h
    exact hd
  | date moment =>
    cases moment with
    | none => cases h
    | some m =>
      obtain rfl := Except.ok.inj h
      rfl
  | bytes octets =>
    obtain rfl := Except.ok.inj h
    exact (Value.isNormalised_mapping _).mpr (octetEntries_normalised octets)
  | failure f =>
    obtain rfl := Except.ok.inj h
    exact (Value.isNormalised_mapping _).mpr f.entries_normalised
  | sequence items =>
    rw [normal] at h
    obtain ⟨found, hfound, h⟩ := Except.parts_of_bind h
    obtain rfl := Except.ok.inj h
    exact (Value.isNormalised_sequence _).mpr (normalItems_normalised hd hfound)
  | object own inherited =>
    rw [normal] at h
    obtain ⟨found, hfound, h⟩ := Except.parts_of_bind h
    obtain rfl := Except.ok.inj h
    exact (Value.isNormalised_mapping _).mpr (normalEntries_normalised (by simp) hd hfound)
  | absent | null | bool _ | text _ | symbol _ | function | buffer _ | map | set | pattern _ =>
    obtain rfl := Except.ok.inj h
    rfl

theorem normalItems_normalised {items : List Datum} {values : List Value}
    (hitems : haveFiniteIntegers items = true) (h : normalItems items = .ok values) :
    ∀ value ∈ values, value.isNormalised = true := by
  cases items with
  | nil =>
    obtain rfl := Except.ok.inj h
    simp
  | cons item rest =>
    rw [haveFiniteIntegers, Bool.and_eq_true] at hitems
    rw [normalItems] at h
    obtain ⟨first, hfirst, h⟩ := Except.parts_of_bind h
    obtain ⟨others, hothers, h⟩ := Except.parts_of_bind h
    obtain rfl := Except.ok.inj h
    exact List.forall_mem_cons.mpr
      ⟨normal_normalised hitems.1 hfirst, normalItems_normalised hitems.2 hothers⟩

theorem normalEntries_normalised {done values : Entries Value} {entries : List (Text × Datum)}
    (hdone : ∀ entry ∈ done, entry.2.isNormalised = true)
    (hentries : entriesHaveFiniteIntegers entries = true)
    (h : normalEntries done entries = .ok values) :
    ∀ entry ∈ values, entry.2.isNormalised = true := by
  cases entries with
  | nil =>
    obtain rfl := Except.ok.inj h
    exact hdone
  | cons entry rest =>
    obtain ⟨key, datum⟩ := entry
    rw [entriesHaveFiniteIntegers, Bool.and_eq_true] at hentries
    rw [normalEntries] at h
    split at h
    · exact normalEntries_normalised hdone hentries.2 h
    · obtain ⟨first, hfirst, h⟩ := Except.parts_of_bind h
      have hassigned := Entries.normalised_assign key hdone (normal_normalised hentries.1 hfirst)
      exact normalEntries_normalised hassigned hentries.2 h

end

end Datum

end BrowserFlow
