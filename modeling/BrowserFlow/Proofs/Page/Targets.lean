import BrowserFlow.Page.Basic
import BrowserFlow.Proofs.Text.Splitting
import Mathlib.Data.List.Basic
import Mathlib.Data.List.TakeWhile

/-!
What selectors are taken for. A selector spells a target when all of it is one
test of a test id, or a role with or without a name, between quotes of one sort
(`Target.Spells`); it denotes that target, and else what it selects in the
language of style sheets (`Target.Denotes`). A spelled target is always found
(`Target.ofSelector_of_spells`). A selector is misread when it merely holds a
test of a test id, or mixes the quotes (`Target.IsMisread`). Main statement: a
selector is taken for what it denotes exactly when it is not misread, and a
request asks the page for what its selector is taken for and then only what was
located there (`Page.carryOut_denoted`).
-/

set_option autoImplicit false
set_option relaxedAutoImplicit false

namespace BrowserFlow

namespace Target

/-! ### Units up to the first of a sort -/

theorem takeWhile_append_cons {sort : CodeUnit → Bool} {front rest : List CodeUnit} {u : CodeUnit}
    (hfront : ∀ v ∈ front, sort v = true) (hu : sort u = false) :
    (front ++ u :: rest).takeWhile sort = front := by
  rw [List.takeWhile_append_of_pos hfront, List.takeWhile_cons_of_neg (by simp [hu]),
    List.append_nil]

theorem drop_length_takeWhile (sort : CodeUnit → Bool) (units : List CodeUnit) :
    units.drop (units.takeWhile sort).length = units.dropWhile sort := by
  have hunits := List.takeWhile_append_dropWhile (p := sort) (l := units)
  generalize units.takeWhile sort = front at hunits ⊢
  generalize units.dropWhile sort = behind at hunits ⊢
  rw [← hunits, List.drop_left]

/-! ### Quotations -/

/-- Whether there are no quotes among units. -/
def IsUnquoted (units : List CodeUnit) : Prop := ∀ u ∈ units, isQuote u = false

instance (units : List CodeUnit) : Decidable (IsUnquoted units) :=
  List.decidableBAll (fun u ↦ isQuote u = false) units

theorem IsUnquoted.append {front behind : List CodeUnit} (hfront : IsUnquoted front)
    (hbehind : IsUnquoted behind) : IsUnquoted (front ++ behind) :=
  List.forall_mem_append.mpr ⟨hfront, hbehind⟩

theorem IsUnquoted.countP_eq_zero {units : List CodeUnit} (h : IsUnquoted units) :
    units.countP isQuote = 0 :=
  List.countP_eq_zero.mpr fun u hu ↦ by simp [h u hu]

theorem IsUnquoted.takeWhile_append_cons {front rest : List CodeUnit} {quote : CodeUnit}
    (h : IsUnquoted front) (hquote : isQuote quote = true) :
    (front ++ quote :: rest).takeWhile (!isQuote ·) = front :=
  Target.takeWhile_append_cons (fun u hu ↦ by simp [h u hu]) (by simp [hquote])

/-- A value between two quotes, of which either may be of either sort. -/
structure Quotation where
  /-- The quote before the value. -/
  opening : CodeUnit
  /-- The value. -/
  value : Text
  /-- The quote behind the value. -/
  closing : CodeUnit
  /-- The value follows a quote. -/
  isQuote_opening : isQuote opening = true
  /-- The value is followed by a quote. -/
  isQuote_closing : isQuote closing = true
  /-- The value is not empty. -/
  nonempty : value.units ≠ []
  /-- There are no quotes inside of the value. -/
  unquoted : IsUnquoted value.units

namespace Quotation

/-- The units of a quotation. -/
def units (quotation : Quotation) : List CodeUnit :=
  quotation.opening :: (quotation.value.units ++ [quotation.closing])

/-- Whether both quotes are of one sort. -/
def isEven (quotation : Quotation) : Bool := quotation.opening == quotation.closing

/-- The test of an attribute for the quoted value. -/
def test (quotation : Quotation) (beginning : Text) : Text :=
  beginning ++ ⟨quotation.units⟩ ++ "]"

theorem units_test (quotation : Quotation) (beginning : Text) :
    (quotation.test beginning).units = beginning.units ++
      quotation.opening :: (quotation.value.units ++ quotation.closing :: ("]" : Text).units) := by
  simp [test, units]

end Quotation

/-- Units are parted in one way only at the first quote. -/
theorem parts_unique {before after others more : List CodeUnit} {quote other : CodeUnit}
    (h : before ++ quote :: after = others ++ other :: more)
    (hbefore : IsUnquoted before) (hothers : IsUnquoted others) (hquote : isQuote quote = true)
    (hother : isQuote other = true) :
    before = others ∧ quote = other ∧ after = more := by
  have hfirst := congrArg (List.takeWhile (!isQuote ·)) h
  rw [hbefore.takeWhile_append_cons hquote, hothers.takeWhile_append_cons hother] at hfirst
  subst hfirst
  exact ⟨rfl, List.cons.inj (List.append_cancel_left h)⟩

/-- What is between quotes at the beginning is read, and nothing else is. -/
theorem quoted?_eq_some_iff {units rest : List CodeUnit} {value : Text} :
    quoted? units = some (value, rest) ↔
      ∃ quotation : Quotation, quotation.value = value ∧ units = quotation.units ++ rest := by
  constructor
  · intro h
    cases units with
    | nil => cases h
    | cons opening more =>
      have hinner : IsUnquoted (more.takeWhile (!isQuote ·)) := fun u hu ↦ by
        simpa using List.mem_takeWhile_imp hu
      have hclosing := List.head?_dropWhile_not (!isQuote ·) more
      have hmore := List.takeWhile_append_dropWhile (p := (!isQuote ·)) (l := more)
      rw [quoted?, drop_length_takeWhile] at h
      generalize more.takeWhile (!isQuote ·) = inner at h hinner hmore
      split at h
      · next closing after hbehind =>
        rw [hbehind] at hclosing hmore
        obtain ⟨hcondition, hpair⟩ := Option.ite_none_right_eq_some.mp h
        obtain ⟨rfl, rfl⟩ := Prod.mk.inj (Option.some.inj hpair)
        rw [Bool.and_eq_true] at hcondition
        refine ⟨⟨opening, ⟨inner⟩, closing, hcondition.1, by simpa using hclosing,
          by simpa using hcondition.2, hinner⟩, rfl, ?_⟩
        simp [← hmore, Quotation.units]
      · cases h
  · rintro ⟨quotation, rfl, rfl⟩
    have hunits : quotation.units ++ rest =
        quotation.opening :: (quotation.value.units ++ quotation.closing :: rest) := by
      simp [Quotation.units]
    rw [hunits, quoted?, quotation.unquoted.takeWhile_append_cons quotation.isQuote_closing,
      List.drop_left]
    simp [quotation.isQuote_opening, quotation.nonempty]

theorem behind?_eq_some_iff {beginning : Text} {units rest : List CodeUnit} :
    behind? beginning units = some rest ↔ units = beginning.units ++ rest := by
  unfold behind?
  constructor
  · intro h
    obtain ⟨hbegins, hrest⟩ := Option.ite_none_right_eq_some.mp h
    obtain ⟨others, rfl⟩ := List.isPrefixOf_iff_prefix.mp hbegins
    rw [Text.length, List.drop_left] at hrest
    rw [Option.some.inj hrest]
  · rintro rfl
    rw [if_pos (List.isPrefixOf_iff_prefix.mpr (List.prefix_append _ _)), Text.length,
      List.drop_left]

/-- A test of an attribute at the beginning is read, and nothing else is. -/
theorem attributeTest?_eq_some_iff {beginning value : Text} {units rest : List CodeUnit} :
    attributeTest? beginning units = some (value, rest) ↔
      ∃ quotation : Quotation, quotation.value = value ∧
        units = (quotation.test beginning).units ++ rest := by
  have hunits (quotation : Quotation) : (quotation.test beginning).units ++ rest =
      beginning.units ++ (quotation.units ++ (("]" : Text).units ++ rest)) := by
    simp [Quotation.test]
  unfold attributeTest?
  constructor
  · intro h
    obtain ⟨inner, hinner, h⟩ := Option.bind_eq_some_iff.mp h
    obtain ⟨⟨found, behind⟩, hfound, h⟩ := Option.bind_eq_some_iff.mp h
    obtain ⟨after, hafter, h⟩ := Option.bind_eq_some_iff.mp h
    obtain ⟨rfl, rfl⟩ := Prod.mk.inj (Option.some.inj h)
    obtain ⟨quotation, rfl, rfl⟩ := quoted?_eq_some_iff.mp hfound
    refine ⟨quotation, rfl, ?_⟩
    rw [behind?_eq_some_iff.mp hinner, behind?_eq_some_iff.mp hafter, hunits]
  · rintro ⟨quotation, rfl, rfl⟩
    refine Option.bind_eq_some_iff.mpr ⟨_, behind?_eq_some_iff.mpr (hunits quotation), ?_⟩
    refine Option.bind_eq_some_iff.mpr ⟨_, quoted?_eq_some_iff.mpr ⟨quotation, rfl, rfl⟩, ?_⟩
    exact Option.bind_eq_some_iff.mpr ⟨rest, behind?_eq_some_iff.mpr rfl, rfl⟩

/-! ### Tests of test ids -/

/-- How a test of a test id begins. -/
def testIdBeginning : Text := "[data-testid="

/-- How the test of an accessible name begins. -/
def nameBeginning : Text := "[name="

/-- A test id that is found is that of a test somewhere in the selector. -/
theorem exists_of_findTestId? {units : List CodeUnit} {id : Text}
    (h : findTestId? units = some id) :
    ∃ (quotation : Quotation) (before after : List CodeUnit), quotation.value = id ∧
      units = before ++ (quotation.test testIdBeginning).units ++ after := by
  induction units with
  | nil => cases h
  | cons u rest ih =>
    rw [findTestId?] at h
    split at h
    · next found after htest =>
      obtain rfl := Option.some.inj h
      obtain ⟨quotation, hvalue, hunits⟩ := attributeTest?_eq_some_iff.mp htest
      exact ⟨quotation, [], after, hvalue, hunits⟩
    · obtain ⟨quotation, before, after, hvalue, rfl⟩ := ih h
      exact ⟨quotation, u :: before, after, hvalue, rfl⟩

/-- A test of a test id at the beginning is found. -/
theorem findTestId?_test (quotation : Quotation) (after : List CodeUnit) :
    findTestId? ((quotation.test testIdBeginning).units ++ after) = some quotation.value := by
  have htest : attributeTest? testIdBeginning ((quotation.test testIdBeginning).units ++ after) =
      some (quotation.value, after) := attributeTest?_eq_some_iff.mpr ⟨quotation, rfl, rfl⟩
  generalize (quotation.test testIdBeginning).units ++ after = units at htest
  cases units with
  | nil => cases htest
  | cons u rest =>
    rw [testIdBeginning] at htest
    rw [findTestId?, htest]

/-- Where a test of a test id stands, one is found. -/
theorem findTestId?_isSome (quotation : Quotation) (before after : List CodeUnit) :
    (findTestId? (before ++ (quotation.test testIdBeginning).units ++ after)).isSome = true := by
  induction before with
  | nil => rw [List.nil_append, findTestId?_test, Option.isSome_some]
  | cons u rest ih =>
    rw [List.cons_append, List.cons_append, findTestId?]
    split
    · rfl
    · exact ih

/-! ### Roles -/

/-- Whether a text is a name of a role. -/
def IsRoleName (name : Text) : Prop := name.units ≠ [] ∧ ∀ u ∈ name.units, isRoleUnit u = true

/-- A selector that is a role has a name of a role and may have a name behind it, and all such
selectors are roles. -/
theorem role?_eq_some_iff {units : List CodeUnit} {target : Target} :
    role? units = some target ↔ ∃ name, IsRoleName name ∧
      ((target = .role name none ∧ units = (("role=" : Text) ++ name).units) ∨
        ∃ quotation : Quotation, target = .role name (some quotation.value) ∧
          units = (("role=" : Text) ++ name ++ quotation.test nameBeginning).units) := by
  unfold role?
  constructor
  · intro h
    obtain ⟨rest, hrest, h⟩ := Option.bind_eq_some_iff.mp h
    have hunits := behind?_eq_some_iff.mp hrest
    have hname : ∀ u ∈ rest.takeWhile isRoleUnit, isRoleUnit u = true := fun u hu ↦
      List.mem_takeWhile_imp hu
    have hparts := List.takeWhile_append_dropWhile (p := isRoleUnit) (l := rest)
    dsimp only at h
    rw [drop_length_takeWhile] at h
    generalize rest.takeWhile isRoleUnit = name at h hname hparts
    obtain ⟨hnonempty, h⟩ := Option.ite_none_left_eq_some.mp h
    refine ⟨⟨name⟩, ⟨by simpa using hnonempty, hname⟩, ?_⟩
    split at h
    · next hbehind =>
      rw [hbehind] at hparts
      exact .inl ⟨(Option.some.inj h).symm, by simp [hunits, ← hparts]⟩
    · split at h
      · next label htest =>
        obtain ⟨quotation, rfl, htested⟩ := attributeTest?_eq_some_iff.mp htest
        refine .inr ⟨quotation, (Option.some.inj h).symm, ?_⟩
        rw [hunits, ← hparts, htested]
        simp [nameBeginning]
      · cases h
  · rintro ⟨name, ⟨hnonempty, hname⟩, hform⟩
    have hbegins (more : List CodeUnit) :
        behind? "role=" ((("role=" : Text) ++ name).units ++ more) = some (name.units ++ more) :=
      behind?_eq_some_iff.mpr (by simp)
    rcases hform with ⟨rfl, rfl⟩ | ⟨quotation, rfl, rfl⟩
    · refine Option.bind_eq_some_iff.mpr ⟨name.units, by simpa using hbegins [], ?_⟩
      rw [List.takeWhile_eq_self_iff.mpr hname]
      simp [hnonempty]
    · refine Option.bind_eq_some_iff.mpr ⟨_, hbegins _, ?_⟩
      have htest : attributeTest? "[name=" (quotation.test nameBeginning).units =
          some (quotation.value, []) :=
        attributeTest?_eq_some_iff.mpr ⟨quotation, rfl, (List.append_nil _).symm⟩
      obtain ⟨u, more, hmore, hu⟩ : ∃ u more, (quotation.test nameBeginning).units = u :: more ∧
          isRoleUnit u = false := ⟨_, _, rfl, by decide⟩
      dsimp only
      rw [hmore] at htest ⊢
      rw [takeWhile_append_cons hname hu, List.drop_left]
      simp [hnonempty, htest]

/-! ### Spelled targets -/

/-- A selector that is as a whole a test of a test id between quotes of one sort, or a role. -/
inductive Spells : Text → Target → Prop
  /-- A test of a test id. -/
  | testId (quotation : Quotation) (heven : quotation.isEven = true) :
    Spells (quotation.test testIdBeginning) (.testId quotation.value)
  /-- A role. -/
  | role {name : Text} (hname : IsRoleName name) : Spells ("role=" ++ name) (.role name none)
  /-- A role with an accessible name. -/
  | named {name : Text} (hname : IsRoleName name) (quotation : Quotation) :
    Spells ("role=" ++ name ++ quotation.test nameBeginning) (.role name (some quotation.value))

/-- What all of a selector denotes: the target that it spells, and without one the elements that a
style sheet would select. -/
def Denotes (selector : Text) (target : Target) : Prop :=
  Spells selector target ∨ (target = .css selector ∧ ∀ other, ¬Spells selector other)

/-- Whether a test of a test id is only a part of a selector, or has quotes that differ. -/
def IsMisread (selector : Text) : Prop :=
  ∃ (before : Text) (quotation : Quotation) (after : Text),
    selector = before ++ quotation.test testIdBeginning ++ after ∧
      ¬(before = .empty ∧ after = .empty ∧ quotation.isEven = true)

/-! ### What selectors are taken for -/

/-- A test has two quotes. -/
theorem countP_test {beginning : Text} (h : IsUnquoted beginning.units) (quotation : Quotation) :
    (quotation.test beginning).units.countP isQuote = 2 := by
  have hbracket : IsUnquoted ("]" : Text).units := by decide
  rw [quotation.units_test]
  simp [h.countP_eq_zero, quotation.unquoted.countP_eq_zero, hbracket.countP_eq_zero,
    quotation.isQuote_opening, quotation.isQuote_closing]

/-- A test among units that are a test themselves has their quotes, and they end with it. -/
theorem test_unique {front beginning : Text} {quotation other : Quotation}
    {before after : List CodeUnit} (hfront : IsUnquoted front.units)
    (hbeginning : IsUnquoted beginning.units)
    (h : (quotation.test front).units = before ++ (other.test beginning).units ++ after) :
    front.units = before ++ beginning.units ∧ after = [] ∧
      quotation.opening = other.opening ∧ quotation.closing = other.closing := by
  have hcount := congrArg (List.countP isQuote) h
  rw [List.countP_append, List.countP_append, countP_test hfront, countP_test hbeginning] at hcount
  have hbefore : IsUnquoted before := by
    simpa [IsUnquoted] using List.countP_eq_zero.mp (show before.countP isQuote = 0 by omega)
  rw [quotation.units_test, other.units_test] at h
  simp only [List.append_assoc, List.cons_append] at h
  rw [← List.append_assoc before] at h
  obtain ⟨hstart, hopening, hinner⟩ := parts_unique h hfront (hbefore.append hbeginning)
    quotation.isQuote_opening other.isQuote_opening
  obtain ⟨-, hclosing, hbehind⟩ := parts_unique hinner quotation.unquoted other.unquoted
    quotation.isQuote_closing other.isQuote_closing
  exact ⟨hstart, List.self_eq_append_right.mp hbehind, hopening, hclosing⟩

theorem isQuote_of_isRoleUnit {u : CodeUnit} (h : isRoleUnit u = true) : isQuote u = false := by
  by_contra hquote
  rw [Bool.not_eq_false, isQuote, Bool.or_eq_true, decide_eq_true_eq, decide_eq_true_eq] at hquote
  rcases hquote with rfl | rfl <;> exact absurd h (by decide)

theorem IsRoleName.isUnquoted {name : Text} (h : IsRoleName name) :
    IsUnquoted ("role=" ++ name : Text).units :=
  IsUnquoted.append (by decide) fun u hu ↦ isQuote_of_isRoleUnit (h.2 u hu)

/-- A role holds no test of a test id. -/
theorem findTestId?_role {name : Text} (hname : IsRoleName name) :
    findTestId? ("role=" ++ name : Text).units = none := by
  refine Option.eq_none_iff_forall_ne_some.mpr fun id hfound ↦ ?_
  obtain ⟨quotation, before, after, -, hunits⟩ := exists_of_findTestId? hfound
  have hcount := congrArg (List.countP isQuote) hunits
  rw [hname.isUnquoted.countP_eq_zero, List.countP_append, List.countP_append,
    countP_test (by decide)] at hcount
  omega

/-- A role with an accessible name holds no test of a test id: its quotes belong to the name. -/
theorem findTestId?_named {name : Text} (hname : IsRoleName name) (quotation : Quotation) :
    findTestId? ("role=" ++ name ++ quotation.test nameBeginning : Text).units = none := by
  refine Option.eq_none_iff_forall_ne_some.mpr fun id hfound ↦ ?_
  obtain ⟨other, before, after, -, hunits⟩ := exists_of_findTestId? hfound
  have htest : ("role=" ++ name ++ quotation.test nameBeginning : Text).units =
      (quotation.test ("role=" ++ name ++ nameBeginning)).units := by
    simp [Quotation.test]
  have hfront : IsUnquoted ("role=" ++ name ++ nameBeginning : Text).units :=
    hname.isUnquoted.append (by decide)
  obtain ⟨hstart, -⟩ := test_unique hfront (by decide) (htest.symm.trans hunits)
  -- Both beginnings would end at the same quote, but neither ends with the other.
  have hsuffix : nameBeginning.units <:+ testIdBeginning.units :=
    List.suffix_of_suffix_length_le ⟨_, rfl⟩ ⟨before, hstart.symm⟩ (by decide)
  exact absurd hsuffix (by decide)

/-- A selector is taken for the target that it spells. -/
theorem ofSelector_of_spells {selector : Text} {target : Target} (h : Spells selector target) :
    ofSelector selector = target := by
  unfold ofSelector
  cases h with
  | testId quotation heven =>
    have hfound := findTestId?_test quotation []
    rw [List.append_nil] at hfound
    rw [hfound]
  | role hname =>
    have hrole := role?_eq_some_iff.mpr ⟨_, hname, .inl ⟨rfl, rfl⟩⟩
    rw [findTestId?_role hname, hrole]
  | named hname quotation =>
    have hrole := role?_eq_some_iff.mpr ⟨_, hname, .inr ⟨quotation, rfl, rfl⟩⟩
    rw [findTestId?_named hname quotation, hrole]

/-- A selector denotes one target. -/
theorem Denotes.unique {selector : Text} {target other : Target} (h : Denotes selector target)
    (hother : Denotes selector other) : target = other := by
  rcases h with hspells | ⟨rfl, hnone⟩
  · rcases hother with hagain | ⟨-, hnone⟩
    · exact (ofSelector_of_spells hspells).symm.trans (ofSelector_of_spells hagain)
    · exact absurd hspells (hnone target)
  · rcases hother with hspells | ⟨rfl, -⟩
    · exact absurd hspells (hnone other)
    · rfl

theorem exists_denotes (selector : Text) : ∃ target, Denotes selector target := by
  by_cases h : ∃ target, Spells selector target
  · obtain ⟨target, hspells⟩ := h
    exact ⟨target, .inl hspells⟩
  · exact ⟨.css selector, .inr ⟨rfl, not_exists.mp h⟩⟩

/-- A selector that is not misread is taken for what it denotes. -/
theorem denotes_of_not_isMisread {selector : Text} (h : ¬IsMisread selector) :
    Denotes selector (ofSelector selector) := by
  unfold ofSelector
  cases hfound : findTestId? selector.units with
  | some id =>
    obtain ⟨quotation, before, after, rfl, hunits⟩ := exists_of_findTestId? hfound
    have hselector : selector = ⟨before⟩ ++ quotation.test testIdBeginning ++ ⟨after⟩ :=
      congrArg Text.mk hunits
    by_cases hwhole : (⟨before⟩ : Text) = .empty ∧ (⟨after⟩ : Text) = .empty ∧
        quotation.isEven = true
    · obtain ⟨hbefore, hafter, heven⟩ := hwhole
      rw [hbefore, hafter, Text.append_empty] at hselector
      exact .inl (hselector ▸ .testId quotation heven)
    · exact absurd ⟨⟨before⟩, quotation, ⟨after⟩, hselector, hwhole⟩ h
  | none =>
    cases hrole : role? selector.units with
    | some target =>
      obtain ⟨name, hname, ⟨rfl, hunits⟩ | ⟨quotation, rfl, hunits⟩⟩ := role?_eq_some_iff.mp hrole
      · rw [show selector = "role=" ++ name from congrArg Text.mk hunits]
        exact .inl (.role hname)
      · rw [show selector = "role=" ++ name ++ quotation.test nameBeginning from
          congrArg Text.mk hunits]
        exact .inl (.named hname quotation)
    | none =>
      refine .inr ⟨rfl, fun other hspells ↦ ?_⟩
      have htaken := ofSelector_of_spells hspells
      rw [ofSelector, hfound, hrole] at htaken
      cases hspells <;> cases htaken

theorem Spells.exists_of_testId {selector id : Text} (h : Spells selector (.testId id)) :
    ∃ quotation : Quotation, quotation.isEven = true ∧
      selector = quotation.test testIdBeginning := by
  generalize htarget : Target.testId id = target at h
  cases h with
  | testId quotation heven => exact ⟨quotation, heven, rfl⟩
  | role _ => cases htarget
  | named _ _ => cases htarget

/-- A selector that is misread is taken for something else than it denotes. -/
theorem IsMisread.not_denotes {selector : Text} (h : IsMisread selector) :
    ¬Denotes selector (ofSelector selector) := by
  intro hdenotes
  obtain ⟨before, quotation, after, rfl, hpart⟩ := h
  obtain ⟨id, hid⟩ := Option.isSome_iff_exists.mp
    (findTestId?_isSome quotation before.units after.units)
  rw [ofSelector, Text.units_append, Text.units_append, hid] at hdenotes
  rcases hdenotes with hspells | ⟨hcss, -⟩
  · obtain ⟨other, heven, hselector⟩ := hspells.exists_of_testId
    obtain ⟨hbefore, hafter, hopening, hclosing⟩ :=
      test_unique (by decide) (by decide) (congrArg Text.units hselector).symm
    have hsame : quotation.isEven = true := by
      rw [Quotation.isEven, ← hopening, ← hclosing]
      exact heven
    exact hpart ⟨congrArg Text.mk (List.self_eq_append_left.mp hbefore), congrArg Text.mk hafter,
      hsame⟩
  · cases hcss

/-- A selector is taken for what it denotes exactly when it is not misread. -/
theorem denotes_ofSelector_iff (selector : Text) :
    Denotes selector (ofSelector selector) ↔ ¬IsMisread selector :=
  ⟨fun h hmisread ↦ hmisread.not_denotes h, denotes_of_not_isMisread⟩

end Target

/-! ### Requests -/

namespace Page

/-- What a page shows at a target. -/
def shown (page : Page) (target : Target) : Located :=
  ⟨target.label, (Entries.find? page.elements target.label).getD []⟩

/-- What a request asks of the elements that were located for it. -/
def askLocated (page : Page) (found : Located) : Call → Visit Datum
  | .click _ => do
    page.ask found.label "click" []
    return .absent
  | .hover _ => do
    page.ask found.label "hover" []
    return .absent
  | .type _ input => do
    page.ask found.label "fill" [.text input]
    return .absent
  | .waitFor _ seconds => do
    let one ← page.first found
    page.ask one.label "waitFor" [.ofEntries [("state", .text "visible"),
      ("timeout", milliseconds seconds)]]
    return .absent
  | .extract _ fields => do
    page.ask found.label "all" []
    return .sequence (← page.readRecords fields found.label 0 found.elements)
  | .getText _ => do return .text (← page.trimmedText (← page.first found))
  | .getAttribute _ attributeName => do
    return textOrNull (← page.readAttribute (← page.first found) attributeName)
  | .setInputFiles _ paths => do
    page.ask found.label "setInputFiles" [.sequence (paths.map .text)]
    return .absent
  | _ => return .absent

/-- A request with a selector locates it and asks only what was located. -/
theorem carryOut_eq_locate {call : Call} {selector : Text} (hcall : call.selector? = some selector)
    (page : Page) (viewing : Viewing) :
    page.carryOut viewing call = page.locate selector >>= (page.askLocated · call) := by
  cases call with
  | navigate _ | wait _ | evaluate _ | executeScript _ | screenshot _ | save _ _ | load _ =>
    cases hcall
  | click _ | hover _ | type _ _ | waitFor _ _ | extract _ _ | getText _ | getAttribute _ _
    | setInputFiles _ _ =>
    obtain rfl := Option.some.inj hcall
    rfl

/-- What asking for a target notes first, and what is asked of it afterwards. -/
def visit (page : Page) (target : Target) (call : Call) : Visit Datum := do
  page.ask "page" target.question.method target.question.operands
  page.askLocated (page.shown target) call

theorem locate_eq (page : Page) (selector : Text) :
    page.locate selector = (do
      page.ask "page" (Target.ofSelector selector).question.method
        (Target.ofSelector selector).question.operands
      return page.shown (Target.ofSelector selector)) := by
  unfold locate
  cases Target.ofSelector selector with
  | role name accessibleName => cases accessibleName <;> rfl
  | testId _ | css _ => rfl

/-- All of a selector denotes one target, a test id or a role only when it spells it, and the
selector is taken for that target exactly when it is not misread. A request with the selector asks
the page for what it is taken for, and all else of what was located there. -/
theorem carryOut_denoted (selector : Text) :
    ∃ target, (∀ other, Target.Denotes selector other ↔ other = target) ∧
      (Target.ofSelector selector = target ↔ ¬Target.IsMisread selector) ∧
      ∀ (page : Page) (viewing : Viewing) (call : Call), call.selector? = some selector →
        page.carryOut viewing call = page.visit (Target.ofSelector selector) call := by
  obtain ⟨target, htarget⟩ := Target.exists_denotes selector
  have hone (other : Target) : Target.Denotes selector other ↔ other = target :=
    ⟨fun h ↦ h.unique htarget, fun h ↦ h ▸ htarget⟩
  refine ⟨target, hone, ?_, fun page viewing call hcall ↦ ?_⟩
  · rw [← hone, Target.denotes_ofSelector_iff]
  · rw [carryOut_eq_locate hcall, locate_eq, visit, bind_assoc]
    simp only [pure_bind]

/-- A role whose accessible name looks like a test of a test id. -/
def bracketedName : Text := "role=option[name=\"[data-testid=all]\"]"

/-- The role is asked for by its whole name, and then clicked. -/
theorem carryOut_denoted_bracketedName :
    (Call.click bracketedName).selector? = some bracketedName ∧
      Target.Denotes bracketedName (.role "option" (some "[data-testid=all]")) ∧
      ¬Target.IsMisread bracketedName ∧
      ∀ (page : Page) (viewing : Viewing), page.carryOut viewing (.click bracketedName) =
        page.visit (.role "option" (some "[data-testid=all]")) (.click bracketedName) := by
  obtain ⟨target, hone, hread, hasks⟩ := carryOut_denoted bracketedName
  let quotation : Target.Quotation :=
    ⟨'"', "[data-testid=all]", '"', by decide, by decide, by decide, by decide⟩
  have hselector : bracketedName = "role=" ++ "option" ++ quotation.test Target.nameBeginning := by
    decide +kernel
  have hname : Target.IsRoleName "option" :=
    ⟨by decide, List.all_eq_true.mp (by decide)⟩
  have hspells : Target.Spells bracketedName (.role "option" (some "[data-testid=all]")) :=
    hselector ▸ .named hname quotation
  have hdenotes : Target.Denotes bracketedName (.role "option" (some "[data-testid=all]")) :=
    .inl hspells
  have htaken := Target.ofSelector_of_spells hspells
  refine ⟨rfl, hdenotes, hread.mp (htaken.trans ((hone _).mp hdenotes)), fun page viewing ↦ ?_⟩
  rw [hasks page viewing (.click bracketedName) rfl, htaken]

/-- A selector of which a test of a test id is only a part. -/
def nestedTest : Text := "div [data-testid=\"menu\"] > button"

theorem isMisread_nestedTest : Target.IsMisread nestedTest := by
  let quotation : Target.Quotation := ⟨'"', "menu", '"', by decide, by decide, by decide, by decide⟩
  have hselector : nestedTest =
      "div " ++ quotation.test Target.testIdBeginning ++ " > button" := by decide +kernel
  exact ⟨_, quotation, _, hselector, fun h ↦ absurd h.1 (by decide)⟩

/-- The rest of a selector that holds a test of a test id is dropped: not every request visits what
its selector denotes. -/
theorem not_forall_carryOut_denoted :
    ¬∀ (page : Page) (viewing : Viewing) (call : Call) (selector : Text),
      call.selector? = some selector →
        ∃ target, Target.Denotes selector target ∧
          page.carryOut viewing call = page.visit target call := by
  intro hall
  obtain ⟨target, hdenotes, hvisit⟩ :=
    hall ⟨[], [], []⟩ ⟨30, []⟩ (.click nestedTest) nestedTest rfl
  have hnot := isMisread_nestedTest.not_denotes
  rcases hdenotes with hspells | ⟨rfl, -⟩
  · exact hnot (.inl (Target.ofSelector_of_spells hspells ▸ hspells))
  · have hasked := congrArg (fun visit : Visit Datum ↦
      (visit.run.run []).2.head?.map PageCall.method) hvisit
    revert hasked
    decide +kernel

end Page

end BrowserFlow
