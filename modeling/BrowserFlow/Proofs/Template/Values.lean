import BrowserFlow.Proofs.Fault.Thrown
import BrowserFlow.Proofs.Template.Names
import BrowserFlow.Proofs.Value.Ordered

/-!
Values and the templates that are collected from them. Resolving a value and
collecting its templates visit the same texts in the same order, so the fault of a
value is that of the first of its templates that has one (`Value.thrown?_resolve`). A
value that is resolved has the shape of the value that it was: sequences keep their
lengths and mappings their keys in their order, each text stands for what its template
stands for and nothing else is changed (`Value.ResolvesTo`). The main statement is
`Value.resolve_follows_templates`.
-/

set_option autoImplicit false
set_option relaxedAutoImplicit false

namespace BrowserFlow

/-- The order of entries is that of their keys: whatever is assigned under a key that is in order
behind others is put behind them, and what follows is still in order. -/
theorem Entries.InOrder.assigned {α : Type} {done rest : Entries α} {key : Text} {value : α}
    (h : InOrder (done ++ (key, value) :: rest)) (other : α) :
    done.assign key other = done ++ [(key, other)] ∧
      InOrder (done ++ [(key, other)] ++ rest) := by
  have horder : InOrder (done ++ [(key, other)] ++ rest) := .of_keys _ (by simp [keys]) h
  exact ⟨assign_eq_append (horder.sublist ((List.sublist_append_left _ _).map _)), horder⟩

namespace Value

variable {scope : Scope}

/-! ### The first fault -/

/-- The fault of a template, if it has one. -/
def faultOf? (scope : Scope) (source : Text) : Option Fault :=
  thrown? (Template.resolve scope source)

theorem thrown?_resolve_text (scope : Scope) (source : Text) :
    thrown? (Template.resolve scope source) =
      (templates (.text source)).findSome? (faultOf? scope) := by
  rw [templates]
  by_cases hplaceholder : Template.hasPlaceholder source = true
  · rw [if_pos hplaceholder]
    rw [List.findSome?_singleton, faultOf?]
  · rw [if_neg hplaceholder, Template.resolve, if_neg hplaceholder]
    rfl

mutual

/-- A value throws the fault of the first of its templates that has one. -/
theorem thrown?_resolve (scope : Scope) (value : Value) :
    thrown? (value.resolve scope) = value.templates.findSome? (faultOf? scope) := by
  cases value with
  | text source => exact thrown?_resolve_text scope source
  | sequence items =>
    rw [resolve, templates, ← thrown?_resolveItems scope items]
    exact thrown?_bind_ok sequence
  | mapping entries =>
    rw [resolve, templates, ← thrown?_resolveEntries scope [] entries]
    exact thrown?_bind_ok mapping
  | null | bool _ | number _ => rfl

theorem thrown?_resolveItems (scope : Scope) (items : List Value) :
    thrown? (resolveItems scope items) = (templatesOfItems items).findSome? (faultOf? scope) := by
  cases items with
  | nil => rfl
  | cons item rest =>
    rw [resolveItems, templatesOfItems, List.findSome?_append, ← thrown?_resolve scope item,
      ← thrown?_resolveItems scope rest]
    exact thrown?_bind fun first ↦ thrown?_bind_ok (first :: ·)

theorem thrown?_resolveEntries (scope : Scope) (done : Entries Value)
    (entries : List (Text × Value)) : thrown? (resolveEntries scope done entries) =
      (templatesOfEntries entries).findSome? (faultOf? scope) := by
  cases entries with
  | nil => rfl
  | cons entry rest =>
    obtain ⟨key, value⟩ := entry
    rw [resolveEntries, templatesOfEntries, List.findSome?_append, ← thrown?_resolve scope value]
    exact thrown?_bind fun resolved ↦ thrown?_resolveEntries scope _ rest

end

/-- Of some templates one has a fault, and those before it have none. -/
def FirstFault (scope : Scope) (sources : List Text) (fault : Fault) : Prop :=
  ∃ before source after, sources = before ++ source :: after ∧
    (∀ earlier ∈ before, ∃ result, Template.resolve scope earlier = .ok result) ∧
    Template.resolve scope source = .error fault

theorem resolve_eq_error_iff {scope : Scope} {value : Value} {fault : Fault} :
    value.resolve scope = .error fault ↔ FirstFault scope value.templates fault := by
  rw [← thrown?_eq_some_iff, thrown?_resolve, List.findSome?_eq_some_iff]
  refine exists_congr fun before ↦ exists_congr fun source ↦ exists_congr fun after ↦ ?_
  refine and_congr_right fun _ ↦ and_comm.trans (and_congr ?_ thrown?_eq_some_iff)
  exact forall₂_congr fun _ _ ↦ thrown?_eq_none_iff

/-- A value has a fault when one of its templates has one. -/
theorem exists_resolve_eq_error_iff {scope : Scope} {value : Value} :
    (∃ fault, value.resolve scope = .error fault) ↔
      ∃ source ∈ value.templates, ∃ fault, Template.resolve scope source = .error fault := by
  have hfirst : (∃ fault, value.resolve scope = .error fault) ↔
      (value.templates.findSome? (faultOf? scope)).isSome = true := by
    simp only [← thrown?_resolve, Option.isSome_iff_exists, thrown?_eq_some_iff]
  rw [hfirst, List.findSome?_isSome_iff]
  simp only [faultOf?, Option.isSome_iff_exists, thrown?_eq_some_iff]

/-! ### The shape of what is resolved -/

mutual

/-- A value and the value of the same shape in which each text is what it stands for. -/
inductive ResolvesTo (scope : Scope) : Value → Value → Prop
  /-- A text is what it stands for. -/
  | text {source : Text} {result : Value} (h : Template.resolve scope source = .ok result) :
      ResolvesTo scope (.text source) result
  /-- Null stays. -/
  | null : ResolvesTo scope .null .null
  /-- A truth value stays. -/
  | bool (b : Bool) : ResolvesTo scope (.bool b) (.bool b)
  /-- A number stays. -/
  | number (x : Number) : ResolvesTo scope (.number x) (.number x)
  /-- A sequence has as many items. -/
  | sequence {items results : List Value} (h : ItemsResolveTo scope items results) :
      ResolvesTo scope (.sequence items) (.sequence results)
  /-- A mapping has the same keys in the same order. -/
  | mapping {entries results : List (Text × Value)} (h : EntriesResolveTo scope entries results) :
      ResolvesTo scope (.mapping entries) (.mapping results)

/-- Items one by one. -/
inductive ItemsResolveTo (scope : Scope) : List Value → List Value → Prop
  /-- The end. -/
  | nil : ItemsResolveTo scope [] []
  /-- An item and the items behind it. -/
  | cons {item result : Value} {rest results : List Value} (h : ResolvesTo scope item result)
      (hrest : ItemsResolveTo scope rest results) :
      ItemsResolveTo scope (item :: rest) (result :: results)

/-- Entries one by one, each under its key. -/
inductive EntriesResolveTo (scope : Scope) : List (Text × Value) → List (Text × Value) → Prop
  /-- The end. -/
  | nil : EntriesResolveTo scope [] []
  /-- An entry and the entries behind it. -/
  | cons {key : Text} {value result : Value} {rest results : List (Text × Value)}
      (h : ResolvesTo scope value result) (hrest : EntriesResolveTo scope rest results) :
      EntriesResolveTo scope ((key, value) :: rest) ((key, result) :: results)

end

mutual

/-- A value is resolved to the value of its shape in which each text is what it stands for. -/
theorem resolve_eq_ok_iff (value : Value) : ∀ {result : Value}, value.isOrdered = true →
    (value.resolve scope = .ok result ↔ ResolvesTo scope value result) := by
  intro result hordered
  cases value with
  | text source =>
    refine ⟨.text, fun h ↦ ?_⟩
    cases h with
    | text h => exact h
  | sequence items =>
    rw [isOrdered] at hordered
    rw [resolve, Except.bind_eq_ok_iff]
    constructor
    · rintro ⟨results, hresults, hsame⟩
      cases hsame
      exact .sequence ((resolveItems_eq_ok_iff items hordered).mp hresults)
    · intro h
      cases h with
      | sequence h => exact ⟨_, (resolveItems_eq_ok_iff items hordered).mpr h, rfl⟩
  | mapping entries =>
    obtain ⟨horder, hinner⟩ := isOrdered_mapping.mp hordered
    have hentries : ∀ results, resolveEntries scope [] entries = .ok results ↔
        EntriesResolveTo scope entries results := by
      intro results
      rw [resolveEntries_eq_ok_iff entries (List.nil_append entries ▸ horder) hinner]
      exact ⟨fun ⟨_, hsame, h⟩ ↦ hsame ▸ h, fun h ↦ ⟨results, rfl, h⟩⟩
    rw [resolve, Except.bind_eq_ok_iff]
    constructor
    · rintro ⟨results, hresults, hsame⟩
      cases hsame
      exact .mapping ((hentries results).mp hresults)
    · intro h
      cases h with
      | mapping h => exact ⟨_, (hentries _).mpr h, rfl⟩
  | null | bool _ | number _ =>
    constructor
    · intro h
      cases h
      constructor
    · intro h
      cases h
      rfl
termination_by structural value

theorem resolveItems_eq_ok_iff (items : List Value) : ∀ {results : List Value},
    areOrdered items = true →
    (resolveItems scope items = .ok results ↔ ItemsResolveTo scope items results) := by
  intro results hordered
  cases items with
  | nil =>
    refine ⟨fun h ↦ ?_, fun h ↦ ?_⟩
    · cases h
      exact .nil
    · cases h
      rfl
  | cons item rest =>
    rw [areOrdered, Bool.and_eq_true] at hordered
    rw [resolveItems, Except.bind_eq_ok_iff]
    constructor
    · rintro ⟨first, hfirst, hrest⟩
      obtain ⟨others, hothers, hsame⟩ := Except.bind_eq_ok_iff.mp hrest
      cases hsame
      exact .cons ((resolve_eq_ok_iff item hordered.1).mp hfirst)
        ((resolveItems_eq_ok_iff rest hordered.2).mp hothers)
    · intro h
      cases h with
      | cons h hrest =>
        exact ⟨_, (resolve_eq_ok_iff item hordered.1).mpr h, Except.bind_eq_ok_iff.mpr
          ⟨_, (resolveItems_eq_ok_iff rest hordered.2).mpr hrest, rfl⟩⟩
termination_by structural items

/-- Entries that stand in their order are assigned one behind the other. -/
theorem resolveEntries_eq_ok_iff (entries : List (Text × Value)) : ∀ {done results : Entries Value},
    Entries.InOrder (done ++ entries) → areOrderedEntries entries = true →
    (resolveEntries scope done entries = .ok results ↔
      ∃ others, done ++ others = results ∧ EntriesResolveTo scope entries others) := by
  intro done results horder hordered
  cases entries with
  | nil =>
    refine ⟨fun h ↦ ?_, ?_⟩
    · cases h
      exact ⟨[], List.append_nil done, .nil⟩
    · rintro ⟨others, rfl, h⟩
      cases h
      rw [List.append_nil]
      rfl
  | cons entry rest =>
    obtain ⟨key, value⟩ := entry
    rw [areOrderedEntries, Bool.and_eq_true] at hordered
    rw [resolveEntries, Except.bind_eq_ok_iff]
    constructor
    · rintro ⟨resolved, hresolved, hrest⟩
      obtain ⟨hassign, hsplit⟩ := horder.assigned resolved
      rw [hassign] at hrest
      obtain ⟨others, rfl, hothers⟩ := (resolveEntries_eq_ok_iff rest hsplit hordered.2).mp hrest
      exact ⟨(key, resolved) :: others, by simp,
        .cons ((resolve_eq_ok_iff value hordered.1).mp hresolved) hothers⟩
    · rintro ⟨others, rfl, h⟩
      cases h with
      | @cons _ _ resolved _ others h hrest =>
        obtain ⟨hassign, hsplit⟩ := horder.assigned resolved
        refine ⟨resolved, (resolve_eq_ok_iff value hordered.1).mpr h, ?_⟩
        rw [hassign]
        exact (resolveEntries_eq_ok_iff rest hsplit hordered.2).mpr ⟨others, by simp, hrest⟩
termination_by structural entries

end

mutual

/-- A value without templates is what it stands for. -/
theorem resolvesTo_self (value : Value) (h : value.templates = []) :
    ResolvesTo scope value value := by
  cases value with
  | text source =>
    refine .text (if_neg fun hplaceholder ↦ ?_)
    rw [templates, if_pos hplaceholder] at h
    cases h
  | sequence items => exact .sequence (itemsResolveTo_self items h)
  | mapping entries => exact .mapping (entriesResolveTo_self entries h)
  | null => exact .null
  | bool b => exact .bool b
  | number x => exact .number x

theorem itemsResolveTo_self (items : List Value) (h : templatesOfItems items = []) :
    ItemsResolveTo scope items items := by
  cases items with
  | nil => exact .nil
  | cons item rest =>
    obtain ⟨hitem, hrest⟩ := List.append_eq_nil_iff.mp h
    exact .cons (resolvesTo_self item hitem) (itemsResolveTo_self rest hrest)

theorem entriesResolveTo_self (entries : List (Text × Value))
    (h : templatesOfEntries entries = []) : EntriesResolveTo scope entries entries := by
  cases entries with
  | nil => exact .nil
  | cons entry rest =>
    obtain ⟨key, value⟩ := entry
    obtain ⟨hvalue, hrest⟩ := List.append_eq_nil_iff.mp h
    exact .cons (resolvesTo_self value hvalue) (entriesResolveTo_self rest hrest)

end

/-! ### Resolving and collecting -/

/-- Resolving a value and collecting its templates agree. A value has the fault of the first of its
templates that has one, and no other fault. It is resolved to the value of its shape in which each
text is what it stands for, and a value without templates to itself. Every value that is built entry
by entry is ordered: no key stands in it twice, the indexes stand first, and none is the
ancestor's. -/
theorem resolve_follows_templates (scope : Scope) (value : Value) (h : value.isOrdered = true) :
    (∀ fault, value.resolve scope = .error fault ↔ FirstFault scope value.templates fault) ∧
      ((∃ fault, value.resolve scope = .error fault) ↔
        ∃ source ∈ value.templates, ∃ fault, Template.resolve scope source = .error fault) ∧
      (∀ result, value.resolve scope = .ok result ↔ ResolvesTo scope value result) ∧
      (value.templates = [] → value.resolve scope = .ok value) := by
  have hshape : ∀ result, value.resolve scope = .ok result ↔ ResolvesTo scope value result :=
    fun _ ↦ resolve_eq_ok_iff value h
  exact ⟨fun _ ↦ resolve_eq_error_iff, exists_resolve_eq_error_iff, hshape,
    fun hnone ↦ (hshape value).mpr (resolvesTo_self value hnone)⟩

/-- Below a mapping the fault of a sequence's second item is thrown, before that of a later key. -/
theorem resolve_follows_templates_missing :
    let scope := Scope.ofEntries [("here", .bool true)]
    let value : Value := .mapping
      [("first", .sequence [.text (Template.enclosed "here"), .text (Template.enclosed "missing")]),
        ("second", .text (Template.enclosed "gone"))]
    value.isOrdered = true ∧ value.resolve scope = .error (.unresolved "missing") := by
  refine ⟨by decide, ((resolve_follows_templates _ _ (by decide)).1 _).mpr
    ⟨[Template.enclosed "here"], Template.enclosed "missing", [Template.enclosed "gone"],
      by decide, ?_, ?_⟩⟩
  · intro earlier hmem
    rw [List.mem_singleton.mp hmem, Template.resolve_enclosed (by decide)]
    exact ⟨.bool true, rfl⟩
  · rw [Template.resolve_enclosed (by decide)]
    rfl

end Value

end BrowserFlow
