import BrowserFlow.Proofs.Document.Parts
import BrowserFlow.Proofs.Run.Ending
import BrowserFlow.Proofs.Run.Outcomes

/-!
Operands that are written out. Checking and running read such an operand by two different rules,
and each has its own bounds for it. What checking does not report is taken when the step begins, in
every scope (`Operand.taken_of_flaws`), and a loop through numbers begins exactly when each of its
operands is taken (`Iteration.beginLoop_iff`). Main statement: the steps of an accepted document do
not fail for an operand that is written out, and an operand that a run would not take is reported
(`Workflow.operand_taken`). There is one exception: the text of an infinite number as the length of
a wait is not reported, and no run takes it (`Workflow.not_forall_operand_taken`).
-/

set_option autoImplicit false
set_option relaxedAutoImplicit false

namespace BrowserFlow

/-! ### Amounts -/

namespace Amount

variable {amount : Amount} {scope : Scope} {label : Text} {x : Number}

/-- Whether an amount is written out: a number, or a text without placeholders. -/
def isLiteral : Amount → Bool
  | .number _ => true
  | .template source => !Template.hasPlaceholder source

/-- Whether an amount is a text that denotes the positive infinite number. -/
def isEndlessText : Amount → Bool
  | .number _ => false
  | .template source => Number.ofText? source == some (.infinite false)

theorem literal?_of_isLiteral (h : amount.isLiteral = true) : ∃ x, amount.literal? = some x := by
  cases amount with
  | number x => exact ⟨x, rfl⟩
  | template source => exact exists_literal? (by simpa [isLiteral] using h)

theorem resolve_number (x : Number) : (number x).resolve scope label = .ok x := rfl

theorem ofText?_of_literal? {source : Text} (hliteral : (template source).literal? = some x)
    (hnumber : x ≠ .nan) : ¬Template.hasPlaceholder source = true ∧ ¬source.isBlank = true ∧
      Number.ofText? source = some x := by
  rw [literal?] at hliteral
  split at hliteral
  · cases hliteral
  · next hplain =>
    split at hliteral
    · exact absurd (Option.some.inj hliteral).symm hnumber
    · next hfilled =>
      have hread := Option.some.inj hliteral
      cases hfound : Number.ofText? source with
      | none =>
        rw [hfound, Option.getD_none] at hread
        exact absurd hread.symm hnumber
      | some y =>
        rw [hfound, Option.getD_some] at hread
        exact ⟨hplain, hfilled, congrArg some hread⟩

/-- A finite number that is written out is what its amount stands for in every scope. -/
theorem resolve_of_literal? (hliteral : amount.literal? = some x) (hfinite : x.isFinite = true) :
    amount.resolve scope label = .ok x := by
  cases amount with
  | number y => rw [resolve_number, Option.some.inj hliteral]
  | template source =>
    have hnumber : x ≠ .nan := by
      rintro rfl
      cases hfinite
    obtain ⟨hplain, hfilled, hread⟩ := ofText?_of_literal? hliteral hnumber
    have hnumeral : numeral? source = some x := by
      rw [numeral?, if_neg hfilled, hread, Option.filter_some, if_pos hfinite]
    have htext : Template.resolve scope source = .ok (.text source) := if_neg hplain
    simp only [resolve, htext, hnumeral, bind, Except.bind]

/-- A text that checking takes for a length denotes a finite number or the infinite one. -/
theorem isFinite_of_le {source : Text} (hliteral : (template source).literal? = some x)
    (hle : Number.le 0 x = true) (hends : (template source).isEndlessText = false) :
    x.isFinite = true := by
  obtain ⟨none, hzero, -⟩ := Number.zero_eq
  rw [hzero] at hle
  cases x with
  | finite negative size => rfl
  | nan => cases hle
  | infinite negative =>
    cases negative with
    | true => cases hle
    | false =>
      obtain ⟨-, -, hread⟩ := ofText?_of_literal? hliteral (by simp)
      simp [isEndlessText, hread] at hends

end Amount

/-! ### Operands -/

/-- An operand of a step that checking has a rule for and that a step fails for when it begins. -/
inductive Operand where
  /-- The length of a wait. -/
  | length (amount : Amount)
  /-- A bound of a range. -/
  | bound (name : Text) (amount : Amount)
  /-- The step of a range. -/
  | pace (amount : Amount)
  /-- A number of turns. -/
  | turns (amount : Amount)
  /-- The variable that is written. -/
  | target (name : Text)

namespace Operand

/-- Whether an operand is written out. -/
def isLiteral : Operand → Bool
  | .length amount => amount.isLiteral
  | .bound _ amount => amount.isLiteral
  | .pace amount => amount.isLiteral
  | .turns amount => amount.isLiteral
  | .target name => !Template.hasPlaceholder name

/-- Whether an operand is a wait for an infinite number of seconds, written as a text. -/
def isEndlessWait : Operand → Bool
  | .length amount => amount.isEndlessText
  | _ => false

/-- What checking can report about an operand. -/
def flaws : Operand → List StepFlaw
  | .length _ => [.negativeWait]
  | .bound name _ => [.operandNotNumber name]
  | .pace _ => [.operandNotNumber "step", .zeroStep]
  | .turns _ => [.badTimes]
  | .target name => [.badTarget name]

/-- Whether a step does not fail for an operand when it begins. An action makes its task. A bound, a
step and a number of turns are resolved, the step to another number than zero and the number of
turns to a natural number. -/
def IsTaken (scope : Scope) : Operand → Prop
  | .length amount => ∀ timeout recorded, ∃ seconds,
      (Action.wait (some amount)).task scope timeout recorded = .ok (.request (.wait seconds))
  | .bound name amount => ∃ x, amount.resolve scope ("for loop " ++ name) = .ok x
  | .pace amount => ∃ x, amount.resolve scope "for loop step" = .ok x ∧ x.isZero = false
  | .turns amount => ∃ x n, amount.resolve scope "repeat times" = .ok x ∧
      x.toInt? = some ((n : Nat) : Int)
  | .target name => ∀ value append timeout recorded,
      (Action.setVariable name value append).task scope timeout recorded =
        (value.resolve scope).map fun resolved ↦ .assign name resolved (append.getD false)

end Operand

namespace Iteration

/-- The operands of a loop that it counts with. -/
def counted : Iteration → List Operand
  | .range _ start stop step =>
    .bound "start" start :: .bound "end" stop :: (step.map .pace).toList
  | .times count _ => [.turns count]
  | _ => []

end Iteration

namespace Step

/-- The operands of a step that checking has a rule for. -/
def counted : Step → List Operand
  | .act _ (.wait seconds) => (seconds.map .length).toList
  | .act _ (.setVariable target _ _) => [.target target]
  | .loop _ spec _ => spec.counted
  | _ => []

end Step

/-- The steps that an operand can be one of. -/
def Operand.StandsIn (step : Step) : Operand → Prop
  | .length amount => ∃ header, step = .act header (.wait (some amount))
  | .target name => ∃ header value append, step = .act header (.setVariable name value append)
  | .turns amount => ∃ header counter body, step = .loop header (.times amount counter) body
  | .pace amount => ∃ header counter start stop body,
      step = .loop header (.range counter start stop (some amount)) body
  | .bound name amount => ∃ header counter start stop pace body,
      step = .loop header (.range counter start stop pace) body ∧
        (name = "start" ∧ amount = start ∨ name = "end" ∧ amount = stop)

theorem Step.standsIn_of_counted {step : Step} {operand : Operand} (h : operand ∈ step.counted) :
    operand.StandsIn step := by
  cases step with
  | branch header condition steps otherwise => cases h
  | act header action =>
    cases action with
    | wait seconds =>
      obtain ⟨amount, rfl, rfl⟩ := Option.map_eq_some_iff.mp (Option.mem_toList.mp h)
      exact ⟨header, rfl⟩
    | setVariable name value append =>
      obtain rfl := List.mem_singleton.mp h
      exact ⟨header, value, append, rfl⟩
    | _ => cases h
  | loop header spec body =>
    cases spec with
    | times count counter =>
      obtain rfl := List.mem_singleton.mp h
      exact ⟨header, counter, body, rfl⟩
    | range counter start stop pace =>
      rcases List.mem_cons.mp h with rfl | h
      · exact ⟨header, counter, start, stop, pace, body, rfl, .inl ⟨rfl, rfl⟩⟩
      rcases List.mem_cons.mp h with rfl | h
      · exact ⟨header, counter, start, stop, pace, body, rfl, .inr ⟨rfl, rfl⟩⟩
      obtain ⟨amount, rfl, rfl⟩ := Option.map_eq_some_iff.mp (Option.mem_toList.mp h)
      exact ⟨header, counter, start, stop, body, rfl⟩
    | _ => cases h

theorem Step.mem_flaws_of_loop {header : StepHeader} {spec : Iteration} {body : List Step}
    {flaw : StepFlaw} (h : flaw ∈ loopFlaws spec) : flaw ∈ (loop header spec body).flaws :=
  List.mem_append_right _ h

/-! ### What checking lets pass is taken -/

namespace Operand

variable {header : StepHeader} {name : Text} {amount : Amount} {scope : Scope}

theorem length_isTaken (hliteral : amount.isLiteral = true) (hends : amount.isEndlessText = false)
    (hnone : .negativeWait ∉ (Step.act header (.wait (some amount))).flaws) :
    (length amount).IsTaken scope := by
  obtain ⟨x, hx⟩ := Amount.literal?_of_isLiteral hliteral
  have hle : Number.le 0 x = true := by
    by_contra hless
    refine hnone (List.mem_append_right _ ?_)
    simp [hx, hless]
  have hresolve : amount.resolve scope "wait duration" = .ok x := by
    cases amount with
    | number y => rw [Amount.resolve_number, Option.some.inj hx]
    | template source =>
      exact Amount.resolve_of_literal? hx (Amount.isFinite_of_le hx hle hends)
  intro timeout recorded
  refine ⟨x, ?_⟩
  change (amount.resolve scope "wait duration").bind _ = _
  rw [hresolve]
  simp [Except.bind, Number.lt_eq_false_of_le hle]

theorem target_isTaken {value : Value} {append : Option Bool}
    (hliteral : (!Template.hasPlaceholder name) = true)
    (hnone : .badTarget name ∉ (Step.act header (.setVariable name value append)).flaws) :
    (target name).IsTaken scope := by
  have hname : name.isName = true := by
    by_contra hother
    refine hnone (List.mem_append_right _ ?_)
    simp_all
  have htext : Template.interpolate scope name = .ok name := by
    have hplain : ¬Template.hasPlaceholder name = true := by simpa using hliteral
    rw [Template.interpolate, Template.resolve, if_neg hplain]
    rfl
  intro value append timeout recorded
  rw [Action.task, htext]
  change (if name.isName = true then _ else _) = _
  rw [if_pos hname]
  cases value.resolve scope <;> rfl

/-- An operand of a range that is written out is resolved unless it is reported. -/
theorem exists_literal?_of_operandFlaws (hliteral : amount.isLiteral = true)
    (hnone : .operandNotNumber name ∉ Step.operandFlaws name amount) :
    ∃ x, amount.literal? = some x ∧ ∀ label, amount.resolve scope label = .ok x := by
  obtain ⟨x, hx⟩ := Amount.literal?_of_isLiteral hliteral
  refine ⟨x, hx, fun label ↦ Amount.resolve_of_literal? hx ?_⟩
  by_contra hinfinite
  refine hnone ?_
  simp [Step.operandFlaws, hx, hinfinite]

theorem bound_isTaken (hliteral : amount.isLiteral = true)
    (hnone : .operandNotNumber name ∉ Step.operandFlaws name amount) :
    (bound name amount).IsTaken scope := by
  obtain ⟨x, -, hresolve⟩ := exists_literal?_of_operandFlaws hliteral hnone
  exact ⟨x, hresolve _⟩

theorem pace_isTaken (hliteral : amount.isLiteral = true)
    (hnumber : .operandNotNumber "step" ∉ Step.operandFlaws "step" amount)
    (hzero : (amount.literal?.map Number.isZero).getD false = false) :
    (pace amount).IsTaken scope := by
  obtain ⟨x, hx, hresolve⟩ := exists_literal?_of_operandFlaws hliteral hnumber
  rw [hx] at hzero
  exact ⟨x, hresolve _, hzero⟩

theorem turns_isTaken {counter : Option Text} (hliteral : amount.isLiteral = true)
    (hnone : .badTimes ∉ Step.loopFlaws (.times amount counter)) :
    (turns amount).IsTaken scope := by
  obtain ⟨x, hx⟩ := Amount.literal?_of_isLiteral hliteral
  have hnatural : (x.isInteger && Number.le 0 x) = true := by
    by_contra hother
    refine hnone ?_
    rw [Bool.not_eq_true] at hother
    simp [Step.loopFlaws, hx, hother]
  obtain ⟨hinteger, hle⟩ := Bool.and_eq_true_iff.mp hnatural
  obtain ⟨n, hn⟩ := Number.exists_nat hinteger hle
  exact ⟨x, n, Amount.resolve_of_literal? hx (Number.isFinite_of_isInteger hinteger), hn⟩

/-- An operand that is written out and of which nothing is reported is taken in every scope. -/
theorem taken_of_flaws {step : Step} {operand : Operand} (hcounted : operand ∈ step.counted)
    (hliteral : operand.isLiteral = true) (hends : operand.isEndlessWait = false)
    (hnone : ∀ flaw ∈ operand.flaws, flaw ∉ step.flaws) : operand.IsTaken scope := by
  have hstands := Step.standsIn_of_counted hcounted
  cases operand with
  | length amount =>
    obtain ⟨header, rfl⟩ := hstands
    exact length_isTaken hliteral hends (hnone _ (.head _))
  | target name =>
    obtain ⟨header, value, append, rfl⟩ := hstands
    exact target_isTaken hliteral (hnone _ (.head _))
  | turns amount =>
    obtain ⟨header, counter, body, rfl⟩ := hstands
    exact turns_isTaken hliteral fun hmem ↦ hnone _ (.head _) (Step.mem_flaws_of_loop hmem)
  | bound name amount =>
    obtain ⟨header, counter, start, stop, pace, body, rfl, hbound⟩ := hstands
    refine bound_isTaken hliteral fun hmem ↦ hnone _ (.head _) (Step.mem_flaws_of_loop ?_)
    rcases hbound with ⟨rfl, rfl⟩ | ⟨rfl, rfl⟩ <;> simp [Step.loopFlaws, hmem]
  | pace amount =>
    obtain ⟨header, counter, start, stop, body, rfl⟩ := hstands
    refine pace_isTaken hliteral (fun hmem ↦ hnone _ (.head _) (Step.mem_flaws_of_loop ?_)) ?_
    · simp [Step.loopFlaws, hmem]
    · by_contra hzero
      rw [Bool.not_eq_false] at hzero
      refine hnone .zeroStep (.tail _ (.head _)) (Step.mem_flaws_of_loop ?_)
      simp [Step.loopFlaws, hzero]

end Operand

namespace Iteration

variable {spec : Iteration} {cursor : Cursor} {scope : Scope}

theorem isEndlessWait_of_counted : ∀ operand ∈ spec.counted, operand.isEndlessWait = false := by
  cases spec with
  | range counter start stop step => cases step <;> simp [counted, Operand.isEndlessWait]
  | _ => simp [counted, Operand.isEndlessWait]

/-- A loop that has begun has taken its operands. -/
theorem isTaken_of_beginLoop (hnumbers : spec.isThroughNumbers = true)
    (hbegin : spec.beginLoop scope = .ok cursor) :
    ∀ operand ∈ spec.counted, operand.IsTaken scope := by
  obtain ⟨first, last, pace, hcounts, hzero, -⟩ := exists_counts hnumbers hbegin
  cases spec with
  | whileHolds condition limit => cases hnumbers
  | forEach counter items => cases hnumbers
  | times count counter =>
    obtain ⟨-, hlast, -, n, hn⟩ := hcounts
    simp only [counted, List.mem_singleton, forall_eq]
    exact ⟨last, n, hlast, hn⟩
  | range counter start stop step =>
    obtain ⟨hfirst, hlast, hpace⟩ := hcounts
    simp only [counted, List.forall_mem_cons]
    refine ⟨⟨first, hfirst⟩, ⟨last, hlast⟩, fun operand hoperand ↦ ?_⟩
    obtain ⟨amount, rfl, rfl⟩ := Option.map_eq_some_iff.mp (Option.mem_toList.mp hoperand)
    exact ⟨pace, hpace, hzero⟩

/-- A loop through numbers begins when its operands are taken. -/
theorem exists_beginLoop (hnumbers : spec.isThroughNumbers = true)
    (htaken : ∀ operand ∈ spec.counted, operand.IsTaken scope) :
    ∃ cursor, spec.beginLoop scope = .ok cursor := by
  suffices hcourse : ∃ course, spec.course scope = .ok course by
    obtain ⟨course, hcourse⟩ := hcourse
    exact ⟨⟨course, 0⟩, by simp [beginLoop, hcourse]⟩
  cases spec with
  | whileHolds condition limit => cases hnumbers
  | forEach counter items => cases hnumbers
  | times count counter =>
    obtain ⟨x, n, hx, hn⟩ := htaken (.turns count) (.head _)
    have hnatural : (x.isInteger && Number.le 0 x) = true := by
      rw [Bool.and_eq_true_iff, Number.le_iff_of_toInt? Number.toInt?_zero hn]
      exact ⟨Option.isSome_iff_exists.mpr ⟨_, hn⟩, Int.natCast_nonneg n⟩
    exact ⟨.range counter 1 x 1, Except.bind_eq_ok_iff.mpr ⟨x, hx, if_pos hnatural⟩⟩
  | range counter start stop step =>
    obtain ⟨first, hfirst⟩ := htaken (.bound "start" start) (.head _)
    obtain ⟨last, hlast⟩ := htaken (.bound "end" stop) (.tail _ (.head _))
    have hfirst : start.resolve scope "for loop start" = .ok first := hfirst
    have hlast : stop.resolve scope "for loop end" = .ok last := hlast
    cases step with
    | none =>
      refine ⟨.range counter first last 1, ?_⟩
      simp only [course, hfirst, hlast, bind, Except.bind, Number.isZero_one, Bool.false_eq_true,
        if_false]
    | some amount =>
      obtain ⟨pace, hpace, hzero⟩ := htaken (.pace amount) (.tail _ (.tail _ (.head _)))
      refine ⟨.range counter first last pace, ?_⟩
      simp only [course, hfirst, hlast, hpace, bind, Except.bind, hzero, Bool.false_eq_true,
        if_false]

end Iteration

namespace Workflow

variable {document : Datum} {w : Workflow} {place : Place} {step : Step}

/-- A flaw of a step is reported, in a document of the right form. -/
theorem exists_lines_of_flaw (hform : Document.workflow document = .ok w)
    (hstep : Step.stepAt? w.steps place = some step) {flaw : StepFlaw} (hflaw : flaw ∈ step.flaws) :
    ∃ lines, validate document = .error (.validation lines) ∧
      flaw.line place.toText ∈ lines := by
  have hline : flaw.line place.toText ∈ issueLines w.located :=
    List.mem_flatMap.mpr ⟨(place, step), Step.mem_locatedFrom hstep, List.mem_map_of_mem hflaw⟩
  refine ⟨issueLines w.located, ?_, hline⟩
  have hread : (Document.workflow document).value? = some w ∧
      (Document.workflow document).issues = [] := by rw [hform]; exact ⟨rfl, rfl⟩
  unfold validate
  simp only [hread.1, hread.2]
  split
  · next hnone => simp [hnone] at hline
  · rfl

/-- Checking and running agree about the operands that are written out, but for waits for an
infinite number of seconds. One that a run would not take in some scope is reported at its step. The
steps of an accepted document do not fail for one in any scope, and its loops through numbers begin
unless an operand with a placeholder is not taken. -/
theorem operand_taken (hform : Document.workflow document = .ok w)
    (hstep : Step.stepAt? w.steps place = some step) :
    (∀ operand ∈ step.counted, operand.isLiteral = true → operand.isEndlessWait = false →
      ∀ scope, ¬operand.IsTaken scope → ∃ lines, validate document = .error (.validation lines) ∧
        ∃ flaw ∈ operand.flaws, flaw.line place.toText ∈ lines) ∧
    ∀ validated, validate document = .ok validated →
      (∀ operand ∈ step.counted, operand.isLiteral = true → operand.isEndlessWait = false →
        ∀ scope, operand.IsTaken scope) ∧
      ∀ header spec body, step = .loop header spec body → spec.isThroughNumbers = true →
        ∀ scope, (∃ cursor, spec.beginLoop scope = .ok cursor) ↔
          ∀ operand ∈ step.counted, operand.isLiteral = false → operand.IsTaken scope := by
  have hreported : ∀ operand ∈ step.counted, operand.isLiteral = true →
      operand.isEndlessWait = false → ∀ scope, ¬operand.IsTaken scope →
        ∃ lines, validate document = .error (.validation lines) ∧
          ∃ flaw ∈ operand.flaws, flaw.line place.toText ∈ lines := by
    intro operand hcounted hliteral hends scope hother
    have hflaw : ∃ flaw ∈ operand.flaws, flaw ∈ step.flaws := by
      by_contra hnone
      push Not at hnone
      exact hother (Operand.taken_of_flaws hcounted hliteral hends hnone)
    obtain ⟨flaw, hmem, hflaw⟩ := hflaw
    obtain ⟨lines, hlines, hline⟩ := exists_lines_of_flaw hform hstep hflaw
    exact ⟨lines, hlines, flaw, hmem, hline⟩
  refine ⟨hreported, fun validated haccepted ↦ ?_⟩
  have htaken : ∀ operand ∈ step.counted, operand.isLiteral = true →
      operand.isEndlessWait = false → ∀ scope, operand.IsTaken scope := by
    intro operand hcounted hliteral hends scope
    by_contra hother
    obtain ⟨lines, hlines, -⟩ := hreported operand hcounted hliteral hends scope hother
    rw [haccepted] at hlines
    cases hlines
  refine ⟨htaken, ?_⟩
  rintro header spec body rfl hnumbers scope
  constructor
  · rintro ⟨cursor, hbegin⟩ operand hcounted -
    exact Iteration.isTaken_of_beginLoop hnumbers hbegin operand hcounted
  · intro hother
    refine Iteration.exists_beginLoop hnumbers fun operand hcounted ↦ ?_
    cases hliteral : operand.isLiteral with
    | false => exact hother operand hcounted hliteral
    | true =>
      exact htaken operand hcounted hliteral (Iteration.isEndlessWait_of_counted operand hcounted)
        scope

/-- A document with a loop that counts down, its bounds and its step written out as texts. -/
def countdown : Datum :=
  .object [("name", .text "down"), ("version", .text "1"), ("steps", .sequence [
    .object [("name", .text "count"), ("action", .text "loop"),
      ("value", .object [("type", .text "for"), ("variable", .text "n"), ("start", .text "1e1"),
        ("end", .text " 0x1 "), ("step", .text "-.5")] []),
      ("steps", .sequence [
        .object [("name", .text "go"), ("action", .text "click"), ("selector", .text "a")] []])]
      []])] []

/-- Whether a step is a loop through numbers that are all written out. -/
def isWrittenOutLoop : Step → Bool
  | .loop _ spec _ => spec.isThroughNumbers && spec.counted.all Operand.isLiteral
  | _ => false

/-- The loop begins in every scope. -/
theorem operand_taken_countdown : ∃ w header spec body,
    Document.workflow countdown = .ok w ∧
      Step.stepAt? w.steps ⟨[], 0⟩ = some (.loop header spec body) ∧
      ∀ scope, ∃ cursor, spec.beginLoop scope = .ok cursor := by
  have haccepted : (validate countdown).toOption.any (fun validated ↦
      (Step.stepAt? validated.workflow.steps ⟨[], 0⟩).any isWrittenOutLoop) = true := by
    decide +kernel
  obtain ⟨validated, step, hvalid, hstep, hloop⟩ := exists_accepted haccepted
  have hform := (validate_eq_ok.mp hvalid).1
  unfold isWrittenOutLoop at hloop
  split at hloop
  · next header spec body =>
    obtain ⟨hnumbers, hall⟩ := Bool.and_eq_true_iff.mp hloop
    refine ⟨validated.workflow, header, spec, body, hform, hstep, fun scope ↦ ?_⟩
    refine (((operand_taken hform hstep).2 validated hvalid).2 header spec body rfl hnumbers
      scope).mpr fun operand hcounted hother ↦ ?_
    rw [List.all_eq_true.mp hall operand hcounted] at hother
    cases hother
  · cases hloop

/-- A document that waits for an infinite number of seconds. -/
def endlessPause : Datum :=
  .object [("name", .text "pause"), ("version", .text "1.0"), ("steps", .sequence [
    .object [("name", .text "Pause"), ("action", .text "wait"), ("value", .text "Infinity")] []])]
    []

/-- Whether a step is a wait that fails when it begins. -/
def isRefusedWait (scope : Scope) : Step → Bool
  | .act _ (.wait (some amount)) =>
    amount.isLiteral && !((Action.wait (some amount)).task scope 30 .null).isOk
  | _ => false

/-- Not every operand that is written out in an accepted document is taken: a wait is refused when
its length is the text of an infinite number. -/
theorem not_forall_operand_taken : ¬∀ document validated place step operand,
    validate document = .ok validated → Step.stepAt? validated.workflow.steps place = some step →
      operand ∈ step.counted → operand.isLiteral = true →
      ∀ env : Environment, operand.IsTaken env.scope := by
  intro hall
  have haccepted : (validate endlessPause).toOption.any (fun validated ↦
      (Step.stepAt? validated.workflow.steps ⟨[], 0⟩).any
        (isRefusedWait (Environment.ofValues []).scope)) = true := by decide +kernel
  obtain ⟨validated, step, hvalid, hstep, hrefused⟩ := exists_accepted haccepted
  unfold isRefusedWait at hrefused
  split at hrefused
  · next header amount =>
    obtain ⟨hliteral, hfails⟩ := Bool.and_eq_true_iff.mp hrefused
    obtain ⟨seconds, htask⟩ := hall endlessPause validated ⟨[], 0⟩ _ (.length amount)
      hvalid hstep (.head _) hliteral (.ofValues []) 30 .null
    rw [htask] at hfails
    cases hfails
  · cases hrefused

end Workflow

end BrowserFlow
