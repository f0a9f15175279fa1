import BrowserFlow.Proofs.Run.Attempts
import BrowserFlow.Proofs.Workflow.Places
import BrowserFlow.Run.Basic

/-!
Runs by recursion on the steps. A list is carried out step by step as long as the
run goes on, a step that controls others is closed behind its body, and a loop
asks its cursor before every turn of its body. Nothing here knows of a stack of
frames: what is still to do is what the recursion (`Work.compute`) comes back to.
Where a loop never ends or a request never returns there is no result. `Carried`
is the same recursion as rules, one for each way on: every result of the
recursion is an application of the rules (`Work.reached_of_compute`), and what
the rules carry out the recursion computes (`Carried.compute`).
-/

set_option autoImplicit false
set_option relaxedAutoImplicit false

namespace BrowserFlow

variable {σ : Type}

/-! ### What a visit finds -/

/-- What a visit finds at a step, seen from the bound names alone. -/
inductive Approach where
  /-- The guard does not hold. -/
  | skip
  /-- The guard, the condition or the operands of the loop failed. -/
  | stumble (fault : Fault)
  /-- An action to carry out. -/
  | act (header : StepHeader) (action : Action)
  /-- The branch to take. -/
  | branch (side : Side) (steps : List Step)
  /-- The loop to begin. -/
  | loop (body : List Step) (cursor : Cursor)

namespace Step

/-- Whether the guard of a step holds; a step without a guard is not held back. -/
def guardHolds (scope : Scope) (step : Step) : Except Fault Bool :=
  match step.header.guard with
  | none => .ok true
  | some guard => guard.evaluate scope

/-- What a step that is not held back asks for. -/
def demand (scope : Scope) : Step → Approach
  | .act header action => .act header action
  | .branch _ condition steps otherwise =>
    match condition.evaluate scope with
    | .error fault => .stumble fault
    | .ok true => .branch .body steps
    | .ok false => .branch .otherwise (otherwise.getD [])
  | .loop _ spec body =>
    match spec.beginLoop scope with
    | .error fault => .stumble fault
    | .ok cursor => .loop body cursor

/-- What a visit finds at a step: its guard comes first. -/
def approach (scope : Scope) (step : Step) : Approach :=
  match step.guardHolds scope with
  | .error fault => .stumble fault
  | .ok false => .skip
  | .ok true => step.demand scope

section Approach

variable {scope : Scope} {step : Step}

theorem demand_of_approach {found : Approach} (h : step.approach scope = found)
    (hskip : found ≠ .skip) (hstumble : ∀ fault, found ≠ .stumble fault) :
    step.demand scope = found := by
  unfold approach at h
  split at h
  · exact absurd h.symm (hstumble _)
  · exact absurd h.symm hskip
  · exact h

theorem eq_act_of_approach {header : StepHeader} {action : Action}
    (h : step.approach scope = .act header action) : step = .act header action := by
  have hdemand := demand_of_approach h (by simp) (by simp)
  cases step with
  | act _ _ =>
    obtain ⟨rfl, rfl⟩ := Approach.act.inj hdemand
    rfl
  | branch _ condition _ _ =>
    rw [demand] at hdemand
    split at hdemand <;> simp at hdemand
  | loop _ spec _ =>
    rw [demand] at hdemand
    split at hdemand <;> simp at hdemand

/-- A branch that is taken is one of its step, or there are no steps in it. -/
theorem eq_branch_of_approach {side : Side} {chosen : List Step}
    (h : step.approach scope = .branch side chosen) :
    ∃ header condition steps otherwise, step = .branch header condition steps otherwise ∧
      (step.list? side = some chosen ∨ chosen = []) := by
  have hdemand := demand_of_approach h (by simp) (by simp)
  cases step with
  | act _ _ => simp [demand] at hdemand
  | branch header condition steps otherwise =>
    refine ⟨header, condition, steps, otherwise, rfl, ?_⟩
    rw [demand] at hdemand
    split at hdemand
    · simp at hdemand
    · obtain ⟨rfl, rfl⟩ := Approach.branch.inj hdemand
      exact .inl rfl
    · obtain ⟨rfl, rfl⟩ := Approach.branch.inj hdemand
      cases otherwise with
      | none => exact .inr rfl
      | some others => exact .inl rfl
  | loop _ spec _ =>
    rw [demand] at hdemand
    split at hdemand <;> simp at hdemand

theorem eq_loop_of_approach {body : List Step} {cursor : Cursor}
    (h : step.approach scope = .loop body cursor) :
    ∃ header spec, step = .loop header spec body ∧ spec.beginLoop scope = .ok cursor := by
  have hdemand := demand_of_approach h (by simp) (by simp)
  cases step with
  | act _ _ => simp [demand] at hdemand
  | branch _ condition _ _ =>
    rw [demand] at hdemand
    split at hdemand <;> simp at hdemand
  | loop header spec _ =>
    rw [demand] at hdemand
    split at hdemand
    · simp at hdemand
    · next hbegin =>
      obtain ⟨rfl, rfl⟩ := Approach.loop.inj hdemand
      exact ⟨header, spec, rfl, hbegin⟩

end Approach

/-- The outcome of a step at a place that is passed over. -/
def passedOver (step : Step) (place : Place) : Outcome :=
  ⟨step.name, step.kind, place, .skipped, 0, 0, none, none⟩

end Step

/-! ### How the run goes on -/

/-- How the run goes on behind something that was carried out. -/
inductive Passage where
  /-- With what comes next. -/
  | through
  /-- Not at all. -/
  | atEnd (ending : Ending)

namespace Passage

/-- How an open step ends when its body has ended like this. -/
def stepEnding : Passage → StepEnding
  | .through => .success
  | .atEnd .completed => .success
  | .atEnd (.failed _) => .failed
  | .atEnd (.cancelled _) => .failed

/-- The fault that an open step is closed with when its body has ended like this. -/
def fault? : Passage → Option Fault
  | .through => none
  | .atEnd ending => ending.fault?

/-- The end of a run whose steps have ended like this. -/
def ending : Passage → Ending
  | .through => .completed
  | .atEnd ending => ending

end Passage

namespace Live

/-- A run that has come to a step. -/
def enter (place : Place) (live : Live σ) : Live σ := live.note (.visited place)

/-- A run whose loop is asked for a turn. -/
def askLoop (owner : Opened) (live : Live σ) : Live σ := live.note (.asked owner.place)

/-- A step that a run has come to, as an open step. -/
def opened (step : Step) (place : Place) (live : Live σ) : Opened :=
  ⟨step, place, (live.enter place).time⟩

@[simp] theorem scope_enter (place : Place) (live : Live σ) :
    (live.enter place).scope = live.scope := rfl

@[simp] theorem scope_askLoop (owner : Opened) (live : Live σ) :
    (live.askLoop owner).scope = live.scope := rfl

/-- The end of a run that is found cancelled. -/
def cancellation (live : Live σ) : Ending := .cancelled (.cancelled live.signal.reason)

/-- An open step closed behind its body. -/
def leave (setting : Setting σ) (owner : Opened) (passage : Passage) (live : Live σ) : Live σ :=
  live.close setting passage.stepEnding passage.fault? owner

/-- What comes of a guard, a condition or operands that failed. -/
def stumbled (setting : Setting σ) (owner : Opened) (fault : Fault) (live : Live σ) :
    Passage × Live σ :=
  let (ends, after) := live.stumble setting owner.step owner.place owner.startedAt fault
  (if ends then .atEnd (.failed fault) else .through, after)

/-- A loop that has had its last turn, told to the log. -/
def finishLoop (setting : Setting σ) (owner : Opened) (turn : Turn) (live : Live σ) : Live σ :=
  live.log setting.bindings .debug "Loop finished"
    [("step", .text owner.step.name),
      ("iterations", .number (Number.ofNat turn.cursor.iterations))]

end Live

/-- How the run goes on behind an action, as it is after the action. -/
def ActionEnd.passage (after : Live σ) : ActionEnd → Passage
  | .goesOn => .through
  | .stops => .atEnd .completed
  | .fails fault => .atEnd (if after.isCancelled then after.cancellation else .failed fault)

/-! ### The recursion -/

/-- A part of a run that the recursion carries out. -/
inductive Work where
  /-- The steps of a list that are left, with the index of the first. -/
  | list (rest : List Step) (site : Site) (index : Nat)
  /-- A visit of a step. -/
  | visit (step : Step) (place : Place)
  /-- The turns that are left of a loop. -/
  | loop (owner : Opened) (body : List Step) (cursor : Cursor)

namespace Work

/-- Work carried out by recursion: the steps of a list one after the other, a step at its place
unless the run is cancelled, and the turns that its cursor has left of a loop. -/
def compute (setting : Setting σ) (work : Work) (live : Live σ) :
    Option (Except Failure Passage × Live σ) :=
  match work with
  | .list [] _ _ => some (.ok .through, live)
  | .list (step :: others) site index => do
    let (passage, after) ← visit step ⟨site, index⟩ |>.compute setting live
    match passage with
    | .ok .through => list others site (index + 1) |>.compute setting after
    | stopped => some (stopped, after)
  | .visit step place =>
    if live.isCancelled then some (.ok (.atEnd live.cancellation), live)
    else
      let entered := live.enter place
      let owner := live.opened step place
      match step.approach live.scope with
      | .skip => some (.ok .through, entered.record setting (step.passedOver place))
      | .stumble fault =>
        let (passage, after) := entered.stumbled setting owner fault
        some (.ok passage, after)
      | .act header action =>
        (entered.perform setting header action place owner.startedAt).map fun (ended, after) ↦
          (ended.map (ActionEnd.passage after), after)
      | .branch side chosen => do
        let (passage, after) ← list chosen (place.list side) 0 |>.compute setting entered
        match passage with
        | .ok passage => some (.ok passage, after.leave setting owner passage)
        | .error failure => some (.error failure, after)
      | .loop body cursor => loop owner body cursor |>.compute setting entered
  | .loop owner body cursor =>
    if live.isCancelled then
      let passage : Passage := .atEnd live.cancellation
      some (.ok passage, live.leave setting owner passage)
    else
      let asked := live.askLoop owner
      match cursor.next live.scope with
      | .error fault =>
        let (passage, after) := asked.stumbled setting owner fault
        some (.ok passage, after)
      | .ok turn =>
        let taken := asked.takeTurn setting owner.step turn
        if turn.goesOn then do
          let (passage, after) ← list body (owner.place.list .body) 0 |>.compute setting taken
          match passage with
          | .ok .through => loop owner body turn.cursor |>.compute setting after
          | .ok (.atEnd ending) =>
            some (.ok (.atEnd ending), after.leave setting owner (.atEnd ending))
          | .error failure => some (.error failure, after)
        else some (.ok .through, (taken.finishLoop setting owner turn).leave setting owner .through)
partial_fixpoint

end Work

namespace Workflow

/-- The run of a document by recursion on its steps. -/
def runByRecursion (host : Host σ) (options : RunParameters) (document : Datum) (live : Live σ) :
    Option (Except Failure RunResult × Live σ) :=
  match validate document with
  | .error fault => some (.error (.fault fault), live)
  | .ok validated => do
    let w := validated.workflow
    let setting := w.setting host options
    let start := (w.start options (announce validated setting live)).live
    let (passage, after) ← (Work.list w.steps [] 0).compute setting start
    match passage with
    | .error failure => some (.error failure, after)
    | .ok passage =>
      let told := conclude passage.ending live.time setting after
      some (.ok (w.result options live.time passage.ending told), told)

end Workflow

/-! ### The recursion as rules -/

namespace Work

/-- The site of some work: that of its list or of its step. -/
def site : Work → Site
  | .list _ site _ => site
  | .visit _ place => place.site
  | .loop owner _ _ => owner.place.site

/-- Work on the steps at their places below a list of steps. -/
def Within (steps : List Step) : Work → Prop
  | .list rest site index =>
    ∀ i step, rest[i]? = some step → Step.stepAt? steps ⟨site, index + i⟩ = some step
  | .visit step place => Step.stepAt? steps place = some step
  | .loop owner body _ =>
    Step.stepAt? steps owner.place = some owner.step ∧ owner.step.list? .body = some body

theorem within_all (steps : List Step) : (list steps [] 0).Within steps := by
  intro index step hstep
  rw [Nat.zero_add]
  exact hstep

variable {steps rest body : List Step} {step : Step} {site : Site} {place : Place} {index : Nat}

theorem Within.head (h : (list (step :: rest) site index).Within steps) :
    (visit step ⟨site, index⟩).Within steps := h 0 step rfl

theorem Within.tail (h : (list (step :: rest) site index).Within steps) :
    (list rest site (index + 1)).Within steps := by
  intro i other hother
  rw [Nat.add_assoc, Nat.add_comm 1 i]
  exact h (i + 1) other hother

theorem Within.of_list? {side : Side} {chosen : List Step} (h : (visit step place).Within steps)
    (hside : step.list? side = some chosen) : (list chosen (place.list side) 0).Within steps := by
  intro i other hother
  rw [Step.stepAt?_list, h, Nat.zero_add, Option.bind_some, hside, Option.bind_some]
  exact hother

theorem Within.branch {scope : Scope} {side : Side} {chosen : List Step}
    (h : (visit step place).Within steps) (hfound : step.approach scope = .branch side chosen) :
    (list chosen (place.list side) 0).Within steps := by
  obtain ⟨_, _, _, _, -, hside | rfl⟩ := Step.eq_branch_of_approach hfound
  · exact h.of_list? hside
  · intro i other hother
    simp at hother

theorem Within.loop {scope : Scope} {cursor : Cursor} {startedAt : Number}
    (h : (visit step place).Within steps) (hfound : step.approach scope = .loop body cursor) :
    (Work.loop ⟨step, place, startedAt⟩ body cursor).Within steps := by
  obtain ⟨_, _, rfl, -⟩ := Step.eq_loop_of_approach hfound
  exact ⟨h, rfl⟩

theorem Within.turn {owner : Opened} {cursor : Cursor}
    (h : (Work.loop owner body cursor).Within steps) :
    (list body (owner.place.list .body) 0).Within steps := Within.of_list? h.1 h.2

end Work

/-- Work that is carried out, from a run before it to a run behind it, and how the run goes on. -/
inductive Carried (setting : Setting σ) : Work → Live σ → Passage → Live σ → Prop
  /-- No steps are left. -/
  | done {site : Site} {index : Nat} {live : Live σ} :
      Carried setting (.list [] site index) live .through live
  /-- The run goes on behind the first step. -/
  | next {step : Step} {rest : List Step} {site : Site} {index : Nat} {live middle after : Live σ}
      {passage : Passage}
      (hvisit : Carried setting (.visit step ⟨site, index⟩) live .through middle)
      (hrest : Carried setting (.list rest site (index + 1)) middle passage after) :
      Carried setting (.list (step :: rest) site index) live passage after
  /-- The run is over behind the first step. -/
  | last {step : Step} {rest : List Step} {site : Site} {index : Nat} {live after : Live σ}
      {ending : Ending}
      (hvisit : Carried setting (.visit step ⟨site, index⟩) live (.atEnd ending) after) :
      Carried setting (.list (step :: rest) site index) live (.atEnd ending) after
  /-- The run is cancelled before the step is visited. -/
  | cancelled {step : Step} {place : Place} {live : Live σ} (hcancelled : live.isCancelled = true) :
      Carried setting (.visit step place) live (.atEnd live.cancellation) live
  /-- The guard does not hold. -/
  | skipped {step : Step} {place : Place} {live : Live σ} (hgoes : live.isCancelled = false)
      (hfound : step.approach live.scope = .skip) :
      Carried setting (.visit step place) live .through
        ((live.enter place).record setting (step.passedOver place))
  /-- The guard, the condition or the operands of the loop fail. -/
  | stumbled {step : Step} {place : Place} {live : Live σ} {fault : Fault}
      (hgoes : live.isCancelled = false) (hfound : step.approach live.scope = .stumble fault) :
      Carried setting (.visit step place) live
        ((live.enter place).stumbled setting (live.opened step place) fault).1
        ((live.enter place).stumbled setting (live.opened step place) fault).2
  /-- An action is carried out. -/
  | acted {step : Step} {place : Place} {live after : Live σ} {header : StepHeader}
      {action : Action} {ended : ActionEnd} (hgoes : live.isCancelled = false)
      (hfound : step.approach live.scope = .act header action)
      (hperform : (live.enter place).perform setting header action place
        (live.opened step place).startedAt = some (.ok ended, after)) :
      Carried setting (.visit step place) live (ended.passage after) after
  /-- A branch is carried out and its step closed. -/
  | branched {step : Step} {place : Place} {live after : Live σ} {side : Side}
      {chosen : List Step} {passage : Passage} (hgoes : live.isCancelled = false)
      (hfound : step.approach live.scope = .branch side chosen)
      (hbody : Carried setting (.list chosen (place.list side) 0) (live.enter place) passage
        after) :
      Carried setting (.visit step place) live passage
        (after.leave setting (live.opened step place) passage)
  /-- A loop is opened and carried out. -/
  | looped {step : Step} {place : Place} {live after : Live σ} {body : List Step}
      {cursor : Cursor} {passage : Passage} (hgoes : live.isCancelled = false)
      (hfound : step.approach live.scope = .loop body cursor)
      (hturns : Carried setting (.loop (live.opened step place) body cursor) (live.enter place)
        passage after) :
      Carried setting (.visit step place) live passage after
  /-- The run is cancelled before the loop is asked. -/
  | halted {owner : Opened} {body : List Step} {cursor : Cursor} {live : Live σ}
      (hcancelled : live.isCancelled = true) :
      Carried setting (.loop owner body cursor) live (.atEnd live.cancellation)
        (live.leave setting owner (.atEnd live.cancellation))
  /-- The condition of the loop fails. -/
  | refused {owner : Opened} {body : List Step} {cursor : Cursor} {live : Live σ} {fault : Fault}
      (hgoes : live.isCancelled = false) (hnext : cursor.next live.scope = .error fault) :
      Carried setting (.loop owner body cursor) live
        ((live.askLoop owner).stumbled setting owner fault).1
        ((live.askLoop owner).stumbled setting owner fault).2
  /-- A turn is carried out, and others follow. -/
  | turned {owner : Opened} {body : List Step} {cursor : Cursor} {live middle after : Live σ}
      {turn : Turn} {passage : Passage} (hgoes : live.isCancelled = false)
      (hnext : cursor.next live.scope = .ok turn) (hturn : turn.goesOn = true)
      (hbody : Carried setting (.list body (owner.place.list .body) 0)
        ((live.askLoop owner).takeTurn setting owner.step turn) .through middle)
      (hrest : Carried setting (.loop owner body turn.cursor) middle passage after) :
      Carried setting (.loop owner body cursor) live passage after
  /-- The run is over within a turn. -/
  | brokenOff {owner : Opened} {body : List Step} {cursor : Cursor} {live after : Live σ}
      {turn : Turn} {ending : Ending} (hgoes : live.isCancelled = false)
      (hnext : cursor.next live.scope = .ok turn) (hturn : turn.goesOn = true)
      (hbody : Carried setting (.list body (owner.place.list .body) 0)
        ((live.askLoop owner).takeTurn setting owner.step turn) (.atEnd ending) after) :
      Carried setting (.loop owner body cursor) live (.atEnd ending)
        (after.leave setting owner (.atEnd ending))
  /-- There are no more turns. -/
  | finished {owner : Opened} {body : List Step} {cursor : Cursor} {live : Live σ} {turn : Turn}
      (hgoes : live.isCancelled = false) (hnext : cursor.next live.scope = .ok turn)
      (hturn : turn.goesOn = false) :
      Carried setting (.loop owner body cursor) live .through
        ((((live.askLoop owner).takeTurn setting owner.step turn).finishLoop setting owner
          turn).leave setting owner .through)

namespace Work

/-- What the recursion comes to: a way on, never an error, and the rules lead to it. -/
def Reached (setting : Setting σ) (work : Work) (live : Live σ)
    (result : Except Failure Passage × Live σ) : Prop :=
  ∃ passage, result.1 = .ok passage ∧ Carried setting work live passage result.2

/-- Every result of the recursion is an application of the rules. -/
theorem reached_of_compute {setting : Setting σ} {work : Work} {live : Live σ}
    {result : Except Failure Passage × Live σ} (h : work.compute setting live = some result) :
    work.Reached setting live result := by
  refine compute.partial_correctness setting (Reached setting) ?_ work live result h
  intro compute ih work live result h
  cases work with
  | list rest site index =>
    cases rest with
    | nil =>
      obtain rfl := Option.some.inj h
      exact ⟨.through, rfl, .done⟩
    | cons step others =>
      obtain ⟨⟨found, middle⟩, hfound, h⟩ := Option.bind_eq_some_iff.mp h
      obtain ⟨passage, rfl, hcarried⟩ := ih _ _ _ hfound
      cases passage with
      | through =>
        obtain ⟨passage, hpassage, hrest⟩ := ih _ _ _ h
        exact ⟨passage, hpassage, .next hcarried hrest⟩
      | atEnd ending =>
        obtain rfl := Option.some.inj h
        exact ⟨.atEnd ending, rfl, .last hcarried⟩
  | visit step place =>
    cases hcancelled : live.isCancelled with
    | true =>
      dsimp only at h
      rw [hcancelled, if_pos rfl] at h
      obtain rfl := Option.some.inj h
      exact ⟨_, rfl, .cancelled hcancelled⟩
    | false =>
      dsimp only at h
      rw [hcancelled, if_neg (by simp)] at h
      split at h
      · next hfound =>
        obtain rfl := Option.some.inj h
        exact ⟨_, rfl, .skipped hcancelled hfound⟩
      · next fault hfound =>
        obtain rfl := Option.some.inj h
        exact ⟨_, rfl, .stumbled hcancelled hfound⟩
      · next header action hfound =>
        obtain ⟨⟨ended, after⟩, hperform, rfl⟩ := Option.map_eq_some_iff.mp h
        obtain ⟨_, _, -, rfl, -⟩ := Live.perform_cases hperform
        exact ⟨_, rfl, .acted hcancelled hfound hperform⟩
      · next side chosen hfound =>
        obtain ⟨⟨found, after⟩, hbody, h⟩ := Option.bind_eq_some_iff.mp h
        obtain ⟨passage, rfl, hcarried⟩ := ih _ _ _ hbody
        obtain rfl := Option.some.inj h
        exact ⟨passage, rfl, .branched hcancelled hfound hcarried⟩
      · next body cursor hfound =>
        obtain ⟨passage, hpassage, hcarried⟩ := ih _ _ _ h
        exact ⟨passage, hpassage, .looped hcancelled hfound hcarried⟩
  | loop owner body cursor =>
    cases hcancelled : live.isCancelled with
    | true =>
      dsimp only at h
      rw [hcancelled, if_pos rfl] at h
      obtain rfl := Option.some.inj h
      exact ⟨_, rfl, .halted hcancelled⟩
    | false =>
      dsimp only at h
      rw [hcancelled, if_neg (by simp)] at h
      split at h
      · next fault hnext =>
        obtain rfl := Option.some.inj h
        exact ⟨_, rfl, .refused hcancelled hnext⟩
      · next turn hnext =>
        by_cases hturn : turn.goesOn = true
        · rw [if_pos hturn] at h
          obtain ⟨⟨found, middle⟩, hbody, h⟩ := Option.bind_eq_some_iff.mp h
          obtain ⟨passage, rfl, hcarried⟩ := ih _ _ _ hbody
          cases passage with
          | through =>
            obtain ⟨passage, hpassage, hrest⟩ := ih _ _ _ h
            exact ⟨passage, hpassage, .turned hcancelled hnext hturn hcarried hrest⟩
          | atEnd ending =>
            obtain rfl := Option.some.inj h
            exact ⟨_, rfl, .brokenOff hcancelled hnext hturn hcarried⟩
        · rw [if_neg hturn] at h
          obtain rfl := Option.some.inj h
          exact ⟨_, rfl, .finished hcancelled hnext (by simpa using hturn)⟩

end Work

/-- Work that is carried out by the rules is carried out by the recursion. -/
theorem Carried.compute {setting : Setting σ} {work : Work} {live after : Live σ}
    {passage : Passage} (h : Carried setting work live passage after) :
    work.compute setting live = some (.ok passage, after) := by
  induction h with
  | done => rw [Work.compute]
  | next _ _ ihvisit ihrest =>
    rw [Work.compute, ihvisit]
    exact ihrest
  | last _ ihvisit =>
    rw [Work.compute, ihvisit]
    rfl
  | cancelled hcancelled => rw [Work.compute, if_pos hcancelled]
  | skipped hgoes hfound => rw [Work.compute, if_neg (by simp [hgoes]), hfound]
  | stumbled hgoes hfound => rw [Work.compute, if_neg (by simp [hgoes]), hfound]
  | acted hgoes hfound hperform =>
    rw [Work.compute, if_neg (by simp [hgoes]), hfound]
    dsimp only
    rw [hperform]
    rfl
  | branched hgoes hfound _ ihbody =>
    rw [Work.compute, if_neg (by simp [hgoes]), hfound]
    dsimp only
    rw [ihbody]
    rfl
  | looped hgoes hfound _ ihturns =>
    rw [Work.compute, if_neg (by simp [hgoes]), hfound]
    exact ihturns
  | halted hcancelled => rw [Work.compute, if_pos hcancelled]
  | refused hgoes hnext => rw [Work.compute, if_neg (by simp [hgoes]), hnext]
  | turned hgoes hnext hturn _ _ ihbody ihrest =>
    rw [Work.compute, if_neg (by simp [hgoes]), hnext]
    dsimp only
    rw [if_pos hturn, ihbody]
    exact ihrest
  | brokenOff hgoes hnext hturn _ ihbody =>
    rw [Work.compute, if_neg (by simp [hgoes]), hnext]
    dsimp only
    rw [if_pos hturn, ihbody]
    rfl
  | finished hgoes hnext hturn =>
    rw [Work.compute, if_neg (by simp [hgoes]), hnext]
    dsimp only
    rw [if_neg (by simp [hturn])]

end BrowserFlow
