import BrowserFlow.Condition.Evaluation
import BrowserFlow.Proofs.Template.Placeholders
import BrowserFlow.Proofs.Value.Order

/-!
Paths followed. A step leads from a value to another (`Segment.Leads`), or it misses because nothing
is there (`Segment.Misses`), or it clashes because nothing can be there (`Segment.Clashes`); every
step into every value does one of the three. A path leads to what its steps lead to one after the
other (`Scope.Leads`). One that leads nowhere breaks at its shortest beginning that leads nowhere
(`Scope.BreaksAt`), and the fault of the path is that of the step that breaks it, which names this
beginning (`Expression.evaluate_path`). So a path is there when it leads to something, and only a
clash keeps the question from being answered.
-/

set_option autoImplicit false
set_option relaxedAutoImplicit false

namespace BrowserFlow

/-! ### Steps -/

namespace Segment

/-- What a step leads to: the value under an own key of a mapping, the item at an index of a
sequence, or the length of a sequence or a text. -/
inductive Leads : Value → Segment → Value → Prop
  /-- From a mapping to the value under a key of it. -/
  | member {entries : Entries Value} {segment : Segment} {value : Value}
      (h : entries.find? segment.key = some value) : Leads (.mapping entries) segment value
  /-- From a sequence to the item at an integer index within it. -/
  | item {items : List Value} {x : Number} {place : Nat} {value : Value}
      (hplace : x.toInt? = some (place : Int)) (h : items[place]? = some value) :
      Leads (.sequence items) (.index x) value
  /-- From a sequence to the number of its items. -/
  | count (items : List Value) :
      Leads (.sequence items) (.name "length") (.number (Number.ofCount items.length))
  /-- From a text to the number of its units. -/
  | length (t : Text) : Leads (.text t) (.name "length") (.number (Number.ofCount t.length))

/-- A step that finds nothing: into null, to a key that a mapping has not, or to anything that is
neither an index within a sequence nor its length. -/
inductive Misses : Value → Segment → Prop
  /-- Nothing is in null. -/
  | null (segment : Segment) : Misses .null segment
  /-- A mapping without the key. -/
  | member {entries : Entries Value} {segment : Segment} (h : segment.key ∉ entries.keys) :
      Misses (.mapping entries) segment
  /-- A name in a sequence. -/
  | name (items : List Value) {key : Text} (h : key ≠ "length") :
      Misses (.sequence items) (.name key)
  /-- A sequence without the index. -/
  | item {items : List Value} {x : Number}
      (h : ∀ place : Nat, x.toInt? = some (place : Int) → items.length ≤ place) :
      Misses (.sequence items) (.index x)

/-- A step that cannot be taken: into a truth value, into a number, or to anything but the length of
a text. -/
inductive Clashes : Value → Segment → Prop
  /-- A truth value has no members. -/
  | bool (b : Bool) (segment : Segment) : Clashes (.bool b) segment
  /-- A number has no members. -/
  | number (x : Number) (segment : Segment) : Clashes (.number x) segment
  /-- A text has a length and nothing else. -/
  | text (t : Text) {segment : Segment} (h : segment ≠ .name "length") : Clashes (.text t) segment

variable {target value : Value} {segment : Segment}

theorem asksLength_iff : segment.asksLength = true ↔ segment = .name "length" := by
  cases segment with
  | name key => simp [asksLength]
  | index x => simp [asksLength]

theorem place?_index {x : Number} {place : Nat} (h : x.toInt? = some (place : Int)) :
    place? (.index x) = some place := by
  simp [place?, h]

/-- An index is a place when it is an integer that is not negative. -/
theorem toInt?_of_place? {x : Number} {place : Nat} (h : place? (.index x) = some place) :
    x.toInt? = some (place : Int) := by
  simp only [place?] at h
  split at h
  · next n hn =>
    split at h
    · next hpositive =>
      obtain rfl := Option.some.inj h
      rw [hn, Int.toNat_of_nonneg hpositive]
    · cases h
  · cases h

theorem Leads.read (h : segment.Leads target value) (reference : Text) :
    segment.read target reference = .ok value := by
  cases h with
  | member h => simp only [Segment.read, h]
  | item hplace h => simp [Segment.read, asksLength, place?_index hplace, h]
  | count items => simp [Segment.read, asksLength]
  | length t => simp [Segment.read, asksLength]

theorem Misses.read (h : segment.Misses target) (reference : Text) :
    segment.read target reference = .error (.unresolved reference) := by
  cases h with
  | null => rfl
  | member h => simp only [Segment.read, Entries.find?_eq_none h]
  | name items h => simp [Segment.read, asksLength, h, place?]
  | @item items x h =>
    have hnone : (place? (.index x)).bind (items[·]?) = none := by
      rw [Option.bind_eq_none_iff]
      exact fun place hplace ↦ List.getElem?_eq_none (h place (toInt?_of_place? hplace))
    simp only [Segment.read, asksLength, hnone]
    rfl

theorem Clashes.read (h : segment.Clashes target) (reference : Text) :
    segment.read target reference =
      .error (.mismatch (.unreadable segment.key target.kind reference)) := by
  cases h with
  | bool | number => rfl
  | text t h =>
    have hother : segment.asksLength = false := by
      rw [← Bool.not_eq_true, asksLength_iff]
      exact h
    simp [Segment.read, hother]

/-- Every step into every value leads to something, finds nothing or cannot be taken. -/
theorem leads_or (target : Value) (segment : Segment) :
    (∃ value, segment.Leads target value) ∨ segment.Misses target ∨ segment.Clashes target := by
  cases target with
  | null => exact .inr (.inl (.null segment))
  | bool b => exact .inr (.inr (.bool b segment))
  | number x => exact .inr (.inr (.number x segment))
  | text t =>
    by_cases h : segment = .name "length"
    · subst h
      exact .inl ⟨_, .length t⟩
    · exact .inr (.inr (.text t h))
  | sequence items =>
    cases segment with
    | name key =>
      by_cases h : key = "length"
      · subst h
        exact .inl ⟨_, .count items⟩
      · exact .inr (.inl (.name items h))
    | index x =>
      by_cases h : ∃ place : Nat, x.toInt? = some (place : Int) ∧ place < items.length
      · obtain ⟨place, hplace, hless⟩ := h
        exact .inl ⟨_, .item hplace (List.getElem?_eq_getElem hless)⟩
      · simp only [not_exists, not_and, Nat.not_lt] at h
        exact .inr (.inl (.item h))
  | mapping entries =>
    cases h : Entries.find? entries segment.key with
    | some value => exact .inl ⟨value, .member h⟩
    | none =>
      refine .inr (.inl (.member fun hmem ↦ ?_))
      rw [← Entries.has_eq_true_iff, Entries.has, h] at hmem
      cases hmem

end Segment

/-! ### Paths -/

namespace Scope

variable (scope : Scope) (root : Text)

/-- What a path leads to: its steps are taken one after the other, from the value of its root. -/
inductive Leads : List Segment → Value → Prop
  /-- The root is bound to a value. -/
  | root {value : Value} (h : scope.find? root = some value) : Leads [] value
  /-- One more step. -/
  | step {taken : List Segment} {segment : Segment} {target value : Value}
      (htaken : Leads taken target) (h : segment.Leads target value) :
      Leads (taken ++ [segment]) value

/-- A path of which the root is not bound, or of which the last step finds nothing. -/
inductive Lacks : List Segment → Prop
  /-- The root is not bound. -/
  | root (h : scope.find? root = none) : Lacks []
  /-- The last step finds nothing. -/
  | step {taken : List Segment} {segment : Segment} {target : Value}
      (htaken : scope.Leads root taken target) (h : segment.Misses target) :
      Lacks (taken ++ [segment])

/-- A path of which the last step cannot be taken. -/
inductive Clashes : List Segment → Prop
  /-- The last step cannot be taken. -/
  | step {taken : List Segment} {segment : Segment} {target : Value}
      (htaken : scope.Leads root taken target) (h : segment.Clashes target) :
      Clashes (taken ++ [segment])

/-- A path breaks at the shortest of its beginnings that leads nowhere. -/
structure BreaksAt (steps broken : List Segment) : Prop where
  /-- It is a beginning of the path. -/
  begins : broken <+: steps
  /-- It leads nowhere. -/
  breaks : ∀ value, ¬scope.Leads root broken value
  /-- Whatever is shorter leads somewhere. -/
  least : ∀ shorter, shorter <+: broken → shorter ≠ broken → ∃ value, scope.Leads root shorter value

end Scope

namespace Expression

/-- What a path is called in a fault: its root and its steps as they are written. -/
def reference (root : Text) (steps : List Segment) : Text :=
  steps.foldl (fun longer segment ↦ longer ++ segment.written) root

variable {scope : Scope} {root : Text} {steps taken broken : List Segment} {value : Value}

theorem reference_append (root : Text) (taken steps : List Segment) :
    reference root (taken ++ steps) = reference (reference root taken) steps :=
  List.foldl_append

theorem length_written_pos (segment : Segment) : 0 < segment.written.units.length := by
  have hpoint : (("." : String) : Text).units.length = 1 := by decide
  have hbracket : (("[" : String) : Text).units.length = 1 := by decide
  cases segment with
  | index x =>
    simp only [Segment.written, Text.units_append, List.length_append, hbracket]
    omega
  | name key =>
    simp only [Segment.written]
    split <;> simp only [Text.units_append, List.length_append, hpoint, hbracket] <;> omega

theorem length_reference_le (root : Text) (steps : List Segment) :
    root.units.length + steps.length ≤ (reference root steps).units.length := by
  induction steps generalizing root with
  | nil => exact le_rfl
  | cons segment rest ih =>
    have hwritten := length_written_pos segment
    have hrest := ih (root ++ segment.written)
    rw [Text.units_append, List.length_append] at hrest
    change _ ≤ (reference (root ++ segment.written) rest).units.length
    rw [List.length_cons]
    omega

/-- Two beginnings of a path go by different names. -/
theorem reference_injective {first second : List Segment} (hfirst : first <+: steps)
    (hsecond : second <+: steps) (h : reference root first = reference root second) :
    first = second := by
  have hextends : ∀ shorter longer : List Segment, shorter <+: longer →
      reference root shorter = reference root longer → shorter = longer := by
    rintro shorter _ ⟨more, rfl⟩ hsame
    have hlength := length_reference_le (reference root shorter) more
    rw [← reference_append, ← hsame] at hlength
    have hnone : more = [] := List.length_eq_zero_iff.mp (by omega)
    rw [hnone, List.append_nil]
  rcases List.prefix_or_prefix_of_prefix hfirst hsecond with hless | hless
  · exact hextends first second hless h
  · exact (hextends second first hless h.symm).symm

/-! ### Evaluation along a path -/

theorem follow_append (target : Value) (name : Text) (taken rest : List Segment) :
    follow target name (taken ++ rest) =
      (follow target name taken).bind fun next ↦ follow next (reference name taken) rest := by
  induction taken generalizing target name with
  | nil => rfl
  | cons segment more ih =>
    rw [List.cons_append, follow, follow]
    cases segment.read target (name ++ segment.written) with
    | error fault => rfl
    | ok next => exact ih next (name ++ segment.written)

/-- A path with one more step is the path and then the step. -/
theorem evaluate_concat (scope : Scope) (root : Text) (taken : List Segment) (segment : Segment) :
    evaluate scope (.path root (taken ++ [segment])) =
      (evaluate scope (.path root taken)).bind fun target ↦
        segment.read target (reference root (taken ++ [segment])) := by
  rw [evaluate, evaluate]
  cases scope.find? root with
  | none => rfl
  | some value =>
    dsimp only
    rw [follow_append, reference_append]
    congr 1
    funext next
    rw [follow]
    change _ = segment.read next (reference root taken ++ segment.written)
    cases segment.read next (reference root taken ++ segment.written) <;> rfl

theorem evaluate_of_leads (h : scope.Leads root steps value) :
    evaluate scope (.path root steps) = .ok value := by
  induction h with
  | root h =>
    rw [evaluate, h]
    rfl
  | step _ h ih =>
    rw [evaluate_concat, ih]
    exact h.read _

theorem evaluate_of_lacks (h : scope.Lacks root steps) :
    evaluate scope (.path root steps) = .error (.unresolved (reference root steps)) := by
  cases h with
  | root h =>
    rw [evaluate, h]
    rfl
  | step htaken h =>
    rw [evaluate_concat, evaluate_of_leads htaken]
    exact h.read _

theorem evaluate_of_clashes (h : scope.Clashes root steps) : ∃ key kind,
    evaluate scope (.path root steps) =
      .error (.mismatch (.unreadable key kind (reference root steps))) := by
  cases h with
  | @step taken segment target htaken h =>
    refine ⟨segment.key, target.kind, ?_⟩
    rw [evaluate_concat, evaluate_of_leads htaken]
    exact h.read _

/-- What breaks a path breaks every path that begins with it. -/
theorem evaluate_of_error {fault : Fault} (h : evaluate scope (.path root taken) = .error fault)
    (hbegins : taken <+: steps) : evaluate scope (.path root steps) = .error fault := by
  obtain ⟨rest, rfl⟩ := hbegins
  induction rest using List.reverseRecOn with
  | nil => rwa [List.append_nil]
  | append_singleton more segment ih =>
    rw [← List.append_assoc, evaluate_concat, ih]
    rfl

end Expression

namespace Scope

variable {scope : Scope} {root : Text} {steps taken broken : List Segment} {value : Value}

open Expression

theorem Leads.of_concat {segment : Segment} (h : scope.Leads root (taken ++ [segment]) value) :
    ∃ target, scope.Leads root taken target ∧ segment.Leads target value := by
  generalize hsteps : taken ++ [segment] = whole at h
  cases h with
  | root => exact absurd hsteps (by simp)
  | step htaken h =>
    obtain ⟨rfl, hsegment⟩ := List.append_inj' hsteps rfl
    obtain rfl := List.singleton_inj.mp hsegment
    exact ⟨_, htaken, h⟩

/-- Where a path leads somewhere, all of its beginnings do. -/
theorem Leads.of_begins (h : scope.Leads root steps value) (hbegins : taken <+: steps) :
    ∃ target, scope.Leads root taken target := by
  obtain ⟨rest, rfl⟩ := hbegins
  induction rest using List.reverseRecOn generalizing value with
  | nil =>
    rw [List.append_nil] at h
    exact ⟨value, h⟩
  | append_singleton more segment ih =>
    rw [← List.append_assoc] at h
    obtain ⟨target, htarget, -⟩ := h.of_concat
    exact ih htarget

/-- A path leads somewhere or breaks. -/
theorem leads_or_breaksAt (scope : Scope) (root : Text) (steps : List Segment) :
    (∃ value, scope.Leads root steps value) ∨ ∃ broken, scope.BreaksAt root steps broken := by
  induction steps using List.reverseRecOn with
  | nil =>
    by_cases h : ∃ value, scope.Leads root [] value
    · exact .inl h
    · exact .inr ⟨[], List.prefix_rfl, not_exists.mp h,
        fun shorter hshorter hne ↦ absurd (List.prefix_nil.mp hshorter) hne⟩
  | append_singleton taken segment ih =>
    obtain ⟨target, htaken⟩ | ⟨broken, hbreaks⟩ := ih
    · by_cases h : ∃ value, scope.Leads root (taken ++ [segment]) value
      · exact .inl h
      · refine .inr ⟨taken ++ [segment], List.prefix_rfl, not_exists.mp h, ?_⟩
        intro shorter hshorter hne
        obtain heq | hless := List.prefix_concat_iff.mp hshorter
        · exact absurd heq hne
        · exact htaken.of_begins hless
    · exact .inr ⟨broken, hbreaks.begins.trans (List.prefix_append _ _), hbreaks.breaks,
        hbreaks.least⟩

/-- A path breaks at one of its beginnings only. -/
theorem BreaksAt.unique {other : List Segment} (h : scope.BreaksAt root steps broken)
    (hother : scope.BreaksAt root steps other) : broken = other := by
  by_contra hne
  rcases List.prefix_or_prefix_of_prefix h.begins hother.begins with hless | hless
  · obtain ⟨value, hleads⟩ := hother.least broken hless hne
    exact h.breaks value hleads
  · obtain ⟨value, hleads⟩ := h.least other hless (Ne.symm hne)
    exact hother.breaks value hleads

/-- Where a path breaks, nothing is found or the step cannot be taken. -/
theorem BreaksAt.lacks_or_clashes (h : scope.BreaksAt root steps broken) :
    scope.Lacks root broken ∨ scope.Clashes root broken := by
  cases broken using List.reverseRecOn with
  | nil =>
    refine .inl (.root ?_)
    rw [Option.eq_none_iff_forall_ne_some]
    exact fun value hvalue ↦ h.breaks value (.root hvalue)
  | append_singleton taken segment =>
    obtain ⟨target, htaken⟩ := h.least taken (List.prefix_append _ _) (by simp)
    rcases segment.leads_or target with ⟨value, hleads⟩ | hmisses | hclashes
    · exact absurd (.step htaken hleads) (h.breaks value)
    · exact .inl (.step htaken hmisses)
    · exact .inr (.step htaken hclashes)

end Scope

namespace Expression

variable {scope : Scope} {root : Text} {steps broken : List Segment} {value : Value}

theorem evaluate_eq_ok_iff :
    evaluate scope (.path root steps) = .ok value ↔ scope.Leads root steps value := by
  refine ⟨fun h ↦ ?_, evaluate_of_leads⟩
  obtain ⟨found, hleads⟩ | ⟨broken, hbreaks⟩ := scope.leads_or_breaksAt root steps
  · obtain rfl := Except.ok.inj ((evaluate_of_leads hleads).symm.trans h)
    exact hleads
  · rcases hbreaks.lacks_or_clashes with hlacks | hclashes
    · rw [evaluate_of_error (evaluate_of_lacks hlacks) hbreaks.begins] at h
      cases h
    · obtain ⟨key, kind, hfault⟩ := evaluate_of_clashes hclashes
      rw [evaluate_of_error hfault hbreaks.begins] at h
      cases h

end Expression

/-! ### Whether a path is there -/

/-- What a template that is one placeholder stands for is there unless it is null or not found. -/
theorem Comparison.evaluate_exists {source : Text} {expression : Expression}
    (h : Template.read source = .ok [.placeholder expression]) (scope : Scope)
    (right : Option Value) :
    evaluate scope ⟨.exists, .text source, right⟩ =
      match expression.evaluate scope with
      | .ok value => .ok !value.isNull
      | .error (.unresolved _) => .ok false
      | .error fault => .error fault := by
  rw [← Template.resolve_of_read h scope]
  rfl

theorem Value.isNull_eq_false_iff {value : Value} : value.isNull = false ↔ value ≠ .null := by
  cases value <;> simp [isNull]

namespace Expression

variable {scope : Scope} {root : Text} {steps : List Segment} {source : Text}

theorem exists_eq_true_iff (h : Template.read source = .ok [.placeholder (.path root steps)])
    (right : Option Value) :
    Comparison.evaluate scope ⟨.exists, .text source, right⟩ = .ok true ↔
      ∃ value, scope.Leads root steps value ∧ value ≠ .null := by
  rw [Comparison.evaluate_exists h]
  constructor
  · intro htrue
    split at htrue
    · next value hvalue =>
      refine ⟨value, evaluate_eq_ok_iff.mp hvalue, Value.isNull_eq_false_iff.mp ?_⟩
      simpa using htrue
    · cases htrue
    · cases htrue
  · rintro ⟨value, hleads, hne⟩
    rw [evaluate_of_leads hleads]
    dsimp only
    rw [Value.isNull_eq_false_iff.mpr hne]
    rfl

/-- Only a path that breaks in a clash keeps the question from being answered, with its fault. -/
theorem exists_eq_error_iff (h : Template.read source = .ok [.placeholder (.path root steps)])
    (right : Option Value) (fault : Fault) :
    Comparison.evaluate scope ⟨.exists, .text source, right⟩ = .error fault ↔
      (∃ broken, scope.BreaksAt root steps broken ∧ scope.Clashes root broken) ∧
        evaluate scope (.path root steps) = .error fault := by
  rw [Comparison.evaluate_exists h]
  obtain ⟨value, hleads⟩ | ⟨broken, hbreaks⟩ := scope.leads_or_breaksAt root steps
  · rw [evaluate_of_leads hleads]
    simp
  · rcases hbreaks.lacks_or_clashes with hlacks | hclashes
    · have hfault := evaluate_of_error (evaluate_of_lacks hlacks) hbreaks.begins
      rw [hfault]
      refine iff_of_false (fun hno ↦ by cases hno) ?_
      rintro ⟨⟨other, hother, hclashes⟩, -⟩
      obtain rfl := hbreaks.unique hother
      obtain ⟨key, kind, hmismatch⟩ := evaluate_of_clashes hclashes
      rw [evaluate_of_lacks hlacks] at hmismatch
      cases hmismatch
    · obtain ⟨key, kind, hmismatch⟩ := evaluate_of_clashes hclashes
      have hexists : ∃ broken, scope.BreaksAt root steps broken ∧ scope.Clashes root broken :=
        ⟨broken, hbreaks, hclashes⟩
      rw [evaluate_of_error hmismatch hbreaks.begins, and_iff_right hexists]
      simp only [Except.error.injEq]

/-- A path is decided by its shortest beginning that leads nowhere. It evaluates to what its steps
lead to, if they lead to anything; otherwise it breaks at exactly one beginning, and its fault
names this beginning and no other: what is not found is unresolved, and a step that cannot be taken
is a mismatch. A path is there when it leads to something other than null, and whether it is there
has a fault, that of the path, when it breaks in a step that cannot be taken. -/
theorem path_leads_or_breaks (scope : Scope) (root : Text) (steps : List Segment) :
    (∀ value, evaluate scope (.path root steps) = .ok value ↔ scope.Leads root steps value) ∧
    ((∀ value, ¬scope.Leads root steps value) → ∃! broken, scope.BreaksAt root steps broken) ∧
    (∀ broken, scope.BreaksAt root steps broken →
      (scope.Lacks root broken ∨ scope.Clashes root broken) ∧
      (scope.Lacks root broken →
        evaluate scope (.path root steps) = .error (.unresolved (reference root broken))) ∧
      (scope.Clashes root broken → ∃ key kind, evaluate scope (.path root steps) =
        .error (.mismatch (.unreadable key kind (reference root broken)))) ∧
      ∀ other, other <+: steps → reference root other = reference root broken → other = broken) ∧
    (∀ source right, Template.read source = .ok [.placeholder (.path root steps)] →
      let there : Comparison := ⟨.exists, .text source, right⟩
      (there.evaluate scope = .ok true ↔ ∃ value, scope.Leads root steps value ∧ value ≠ .null) ∧
      ∀ fault, there.evaluate scope = .error fault ↔
        (∃ broken, scope.BreaksAt root steps broken ∧ scope.Clashes root broken) ∧
          evaluate scope (.path root steps) = .error fault) := by
  refine ⟨fun value ↦ evaluate_eq_ok_iff, fun hnowhere ↦ ?_, fun broken hbreaks ↦ ?_,
    fun source right hread ↦ ⟨exists_eq_true_iff hread right, exists_eq_error_iff hread right⟩⟩
  · obtain ⟨value, hleads⟩ | ⟨broken, hbreaks⟩ := scope.leads_or_breaksAt root steps
    · exact absurd hleads (hnowhere value)
    · exact ⟨broken, hbreaks, fun other hother ↦ hother.unique hbreaks⟩
  · refine ⟨hbreaks.lacks_or_clashes,
      fun hlacks ↦ evaluate_of_error (evaluate_of_lacks hlacks) hbreaks.begins,
      fun hclashes ↦ ?_, fun other hother ↦ reference_injective hother hbreaks.begins⟩
    obtain ⟨key, kind, hmismatch⟩ := evaluate_of_clashes hclashes
    exact ⟨key, kind, evaluate_of_error hmismatch hbreaks.begins⟩

/-- The name of an owner is null: a path through it breaks there, however much further it goes, and
is not there. -/
theorem path_leads_or_breaks_nullName :
    let scope := Scope.ofEntries [("owner", .mapping [("name", .null)])]
    let steps : List Segment := [.name "name", .name "first", .name "letter"]
    let broken : List Segment := [.name "name", .name "first"]
    let source := Template.enclosed "owner.name.first.letter"
    scope.BreaksAt "owner" steps broken ∧ scope.Lacks "owner" broken ∧
      evaluate scope (.path "owner" steps) = .error (.unresolved "owner.name.first") ∧
      Template.read source = .ok [.placeholder (.path "owner" steps)] ∧
      Comparison.evaluate scope ⟨.exists, .text source, none⟩ = .ok false := by
  intro scope steps broken source
  have howner : scope.Leads "owner" [] (.mapping [("name", .null)]) := .root rfl
  have hname : scope.Leads "owner" [.name "name"] .null := .step howner (.member rfl)
  have hlacks : scope.Lacks "owner" broken := .step hname (.null _)
  have hnowhere : ∀ value, ¬scope.Leads "owner" broken value := by
    intro value hvalue
    have hfault := evaluate_of_lacks hlacks
    rw [evaluate_of_leads hvalue] at hfault
    cases hfault
  have hbreaks : scope.BreaksAt "owner" steps broken := by
    refine ⟨⟨[.name "letter"], rfl⟩, hnowhere, fun shorter hshorter hne ↦ ?_⟩
    obtain heq | hless := List.prefix_concat_iff.mp
      (show shorter <+: [.name "name"] ++ [.name "first"] from hshorter)
    · exact absurd heq hne
    · exact hname.of_begins hless
  let point : Word := .ofMark '.' (by decide)
  let words : List Word := [.ofName "owner" (by decide), point, .ofName "name" (by decide), point,
    .ofName "first" (by decide), point, .ofName "letter" (by decide)]
  have hwords : Written 0 (.path "owner" steps) words :=
    .path rfl (by decide) (.member rfl rfl (.member rfl rfl (.member rfl rfl .none)))
  have hspaced : Spaced words (Text.ofString "owner.name.first.letter").units := by
    have hunits : words.flatMap (fun word ↦ word.units ++ []) =
        (Text.ofString "owner.name.first.letter").units := by decide +kernel
    rw [← hunits]
    exact spaced_flatMap [] (by simp) words
  have hread : Template.read source = .ok [.placeholder (.path "owner" steps)] :=
    Template.read_enclosed_of_written hwords hspaced (by decide +kernel) (by decide +kernel)
  obtain ⟨-, -, hfault, hthere⟩ := path_leads_or_breaks scope "owner" steps
  have hunresolved := (hfault broken hbreaks).2.1 hlacks
  have hnamed : reference "owner" broken = "owner.name.first" := by decide +kernel
  rw [hnamed] at hunresolved
  refine ⟨hbreaks, hlacks, hunresolved, hread, ?_⟩
  obtain ⟨htrue, herror⟩ := hthere source none hread
  cases hresult : Comparison.evaluate scope ⟨.exists, .text source, none⟩ with
  | ok answer =>
    cases answer with
    | false => rfl
    | true =>
      obtain ⟨value, hleads, -⟩ := htrue.mp hresult
      exact absurd (hleads.of_begins hbreaks.begins) (not_exists.mpr hnowhere)
  | error fault =>
    obtain ⟨⟨other, hother, hclashes⟩, -⟩ := (herror fault).mp hresult
    obtain rfl := hbreaks.unique hother
    obtain ⟨key, kind, hmismatch⟩ := evaluate_of_clashes hclashes
    rw [evaluate_of_lacks hlacks] at hmismatch
    cases hmismatch

end Expression

end BrowserFlow
