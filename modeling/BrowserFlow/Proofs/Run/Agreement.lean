import BrowserFlow.Proofs.Run.Recursion

/-!
The walk with its stack of frames agrees with the recursion on the steps. A
frame is work of the recursion that the walk still has to do. One turn of the
walk is what one rule says, whatever is below the topmost frame, so work that is
carried out by the rules is done by a walk that goes on below
(`Carried.ends`); and a walk that ends has done the work of its topmost frame in
so many turns, with the others left for what is below (`Work.traced`). Main
statements: a run ends exactly when the rules carry its steps out
(`Workflow.run_iff_carried`), and so it ends exactly as the recursion does
(`Workflow.run_iff_runByRecursion`).
-/

set_option autoImplicit false
set_option relaxedAutoImplicit false

namespace BrowserFlow

variable {σ : Type} {setting : Setting σ}

/-! ### Following a walk -/

namespace Progress

/-- What becomes of a walk within so many turns. -/
def follow (setting : Setting σ) (turns : Nat) :
    Progress σ → Option (Except Failure Ending × Live σ)
  | .going walk => walk.advance setting turns
  | .ended ending live => some (.ok ending, live)
  | .broken failure live => some (.error failure, live)
  | .stuck => none

/-- How a walk ends at last. -/
def Ends (setting : Setting σ) (progress : Progress σ)
    (result : Except Failure Ending × Live σ) : Prop :=
  ∃ turns, progress.follow setting turns = some result

end Progress

namespace Walk

theorem advance_succ (turns : Nat) (walk : Walk σ) :
    walk.advance setting (turns + 1) = (walk.turn setting).follow setting turns := by
  rw [advance]
  cases walk.turn setting <;> rfl

/-- A walk ends as it does after one more turn. -/
theorem ends_iff_turn (walk : Walk σ) (result : Except Failure Ending × Live σ) :
    (Progress.going walk).Ends setting result ↔ (walk.turn setting).Ends setting result := by
  constructor
  · rintro ⟨turns, h⟩
    cases turns with
    | zero => simp [Progress.follow, advance] at h
    | succ turns => exact ⟨turns, (advance_succ turns walk).symm.trans h⟩
  · rintro ⟨turns, h⟩
    exact ⟨turns + 1, (advance_succ turns walk).trans h⟩

end Walk

/-! ### One turn -/

/-- What a walk comes to where the run goes on like this. -/
def Passage.progress (setting : Setting σ) (walk : Walk σ) (passage : Passage) : Progress σ :=
  match passage with
  | .through => .going walk
  | .atEnd ending =>
    .ended ending (walk.live.closeAll setting passage.stepEnding passage.fault? walk.stack)

/-- An open step closed, if there is one. -/
def Live.release (setting : Setting σ) (owner : Option Opened) (passage : Passage)
    (live : Live σ) : Live σ :=
  match owner with
  | none => live
  | some opened => live.leave setting opened passage

namespace Passage

theorem progress_atEnd (ending : Ending) (frame : Frame) (below : List Frame) (live : Live σ) :
    (atEnd ending).progress setting ⟨live, frame :: below⟩ =
      (atEnd ending).progress setting
        ⟨live.release setting frame.owner? (.atEnd ending), below⟩ := by
  cases howner : frame.owner? with
  | none => simp [progress, Live.closeAll, Live.release, howner]
  | some owner => simp [progress, Live.closeAll, Live.release, Live.leave, howner]

end Passage

namespace Walk

/-- A walk that comes to a step. The stack already holds what comes after it. -/
def arrive (setting : Setting σ) (step : Step) (place : Place) (walk : Walk σ) : Progress σ :=
  if walk.live.isCancelled then walk.cancel setting else walk.visit setting step place

variable {step : Step} {place : Place} {live : Live σ} {below : List Frame}

theorem turn_nil (site : Site) (index : Nat) (owner : Option Opened) (below : List Frame)
    (live : Live σ) :
    (⟨live, .steps [] site index owner :: below⟩ : Walk σ).turn setting =
      .going ⟨live.release setting owner .through, below⟩ := by
  cases owner <;> rfl

theorem turn_cons (step : Step) (rest : List Step) (site : Site) (index : Nat)
    (owner : Option Opened) (below : List Frame) (live : Live σ) :
    (⟨live, .steps (step :: rest) site index owner :: below⟩ : Walk σ).turn setting =
      arrive setting step ⟨site, index⟩ ⟨live, .steps rest site (index + 1) owner :: below⟩ := rfl

theorem cancel_eq (walk : Walk σ) :
    walk.cancel setting = (Passage.atEnd walk.live.cancellation).progress setting walk := rfl

theorem stumble_eq (startedAt : Number) (fault : Fault) (walk : Walk σ) :
    walk.stumble setting step place startedAt fault =
      (walk.live.stumbled setting ⟨step, place, startedAt⟩ fault).1.progress setting
        ⟨(walk.live.stumbled setting ⟨step, place, startedAt⟩ fault).2, walk.stack⟩ := by
  unfold stumble Live.stumbled
  dsimp only
  rcases walk.live.stumble setting step place startedAt fault with ⟨ends, after⟩
  cases ends <;> rfl

/-- What a visit comes to, by what it finds. -/
def found (setting : Setting σ) (step : Step) (place : Place) (live : Live σ)
    (below : List Frame) : Approach → Progress σ
  | .skip => .going ⟨(live.enter place).record setting (step.passedOver place), below⟩
  | .stumble fault =>
    ((live.enter place).stumbled setting (live.opened step place) fault).1.progress setting
      ⟨((live.enter place).stumbled setting (live.opened step place) fault).2, below⟩
  | .act header action =>
    match (live.enter place).perform setting header action place
      (live.opened step place).startedAt with
    | none => .stuck
    | some (.error failure, after) => .broken failure after
    | some (.ok ended, after) => (ended.passage after).progress setting ⟨after, below⟩
  | .branch side chosen =>
    .going ⟨live.enter place,
      .steps chosen (place.list side) 0 (some (live.opened step place)) :: below⟩
  | .loop body cursor =>
    .going ⟨live.enter place, .loop (live.opened step place) body cursor :: below⟩

theorem enter_act (header : StepHeader) (action : Action) (startedAt : Number) (walk : Walk σ) :
    walk.enter setting (.act header action) place startedAt =
      match walk.live.perform setting header action place startedAt with
      | none => .stuck
      | some (.error failure, after) => .broken failure after
      | some (.ok ended, after) => (ended.passage after).progress setting ⟨after, walk.stack⟩ := by
  unfold enter
  dsimp only
  rcases walk.live.perform setting header action place startedAt with _ | ⟨_ | ended, after⟩
  · rfl
  · rfl
  · cases ended with
    | goesOn => rfl
    | stops => rfl
    | fails fault =>
      dsimp only [ActionEnd.passage]
      by_cases hcancelled : after.isCancelled = true
      · rw [if_pos hcancelled, if_pos hcancelled, cancel_eq]
      · rw [if_neg hcancelled, if_neg hcancelled]
        rfl

theorem enter_eq (step : Step) (place : Place) (live : Live σ) (below : List Frame) :
    (⟨live.enter place, below⟩ : Walk σ).enter setting step place
        (live.opened step place).startedAt =
      found setting step place live below (step.demand live.scope) := by
  cases step with
  | act header action => exact enter_act header action _ _
  | branch header condition steps otherwise =>
    dsimp only [enter, Step.demand]
    rw [Live.scope_enter]
    rcases condition.evaluate live.scope with fault | _ | _
    · exact stumble_eq _ fault _
    · rfl
    · rfl
  | loop header spec body =>
    dsimp only [enter, Step.demand]
    rw [Live.scope_enter]
    rcases spec.beginLoop live.scope with fault | cursor
    · exact stumble_eq _ fault _
    · rfl

/-- A visit comes to what its approach asks for. -/
theorem visit_eq (step : Step) (place : Place) (live : Live σ) (below : List Frame) :
    (⟨live, below⟩ : Walk σ).visit setting step place =
      found setting step place live below (step.approach live.scope) := by
  unfold visit Step.approach Step.guardHolds
  cases hguard : step.header.guard with
  | none => exact enter_eq step place live below
  | some guard =>
    dsimp only
    rw [← Live.enter, Live.scope_enter]
    rcases guard.evaluate live.scope with fault | _ | _
    · exact stumble_eq _ fault _
    · rfl
    · exact enter_eq step place live below

theorem arrive_eq (hgoes : live.isCancelled = false) :
    arrive setting step place ⟨live, below⟩ =
      found setting step place live below (step.approach live.scope) := by
  rw [arrive, if_neg (by simp [hgoes]), visit_eq]

theorem arrive_of_cancelled (hcancelled : live.isCancelled = true) :
    arrive setting step place ⟨live, below⟩ =
      (Passage.atEnd live.cancellation).progress setting ⟨live, below⟩ := by
  rw [arrive, if_pos hcancelled, cancel_eq]

/-- What asking a loop for a turn comes to. -/
theorem nextTurn_eq (owner : Opened) (body : List Step) (cursor : Cursor) (below : List Frame)
    (live : Live σ) :
    nextTurn setting owner body cursor below live =
      match cursor.next live.scope with
      | .error fault =>
        ((live.askLoop owner).stumbled setting owner fault).1.progress setting
          ⟨((live.askLoop owner).stumbled setting owner fault).2, below⟩
      | .ok turn =>
        let taken := (live.askLoop owner).takeTurn setting owner.step turn
        if turn.goesOn then
          .going ⟨taken,
            .steps body (owner.place.list .body) 0 none :: .loop owner body turn.cursor :: below⟩
        else
          .going ⟨(taken.finishLoop setting owner turn).leave setting owner .through, below⟩ := by
  unfold nextTurn
  dsimp only
  rw [← Live.askLoop, Live.scope_askLoop]
  rcases cursor.next live.scope with fault | turn
  · exact stumble_eq _ fault _
  · rfl

theorem turn_loop (owner : Opened) (body : List Step) (cursor : Cursor) (below : List Frame)
    (live : Live σ) :
    (⟨live, .loop owner body cursor :: below⟩ : Walk σ).turn setting =
      if live.isCancelled then
        (Passage.atEnd live.cancellation).progress setting
          ⟨live.leave setting owner (.atEnd live.cancellation), below⟩
      else nextTurn setting owner body cursor below live := by
  change (if live.isCancelled then cancel setting ⟨live, .loop owner body cursor :: below⟩
    else nextTurn setting owner body cursor below live) = _
  rw [cancel_eq, Passage.progress_atEnd]
  rfl

/-- The walks that a walk comes by, one turn after the other. -/
inductive Reaches (setting : Setting σ) (first : Walk σ) : Walk σ → Prop
  /-- The walk itself. -/
  | start : Reaches setting first first
  /-- A walk that another one goes on with. -/
  | turn {walk next : Walk σ} (hwalk : Reaches setting first walk)
      (hturn : walk.turn setting = .going next) : Reaches setting first next

end Walk

/-! ### Work on the stack -/

namespace Work

/-- A walk that begins with some work. The steps of a list may be a branch of an open step. -/
def start (setting : Setting σ) (owner : Option Opened) (below : List Frame) (live : Live σ) :
    Work → Progress σ
  | .list rest site index => .going ⟨live, .steps rest site index owner :: below⟩
  | .visit step place => Walk.arrive setting step place ⟨live, below⟩
  | .loop opened body cursor => .going ⟨live, .loop opened body cursor :: below⟩

/-- A walk with some work behind it. -/
def behind (setting : Setting σ) (owner : Option Opened) (below : List Frame)
    (passage : Passage) (after : Live σ) : Work → Progress σ
  | .list _ _ _ => passage.progress setting ⟨after.release setting owner passage, below⟩
  | .visit _ _ => passage.progress setting ⟨after, below⟩
  | .loop _ _ _ => passage.progress setting ⟨after, below⟩

end Work

/-- Work that is carried out by the rules is done by the walk, whatever is below it. -/
theorem Carried.ends {work : Work} {live after : Live σ} {passage : Passage}
    (h : Carried setting work live passage after) (owner : Option Opened) (below : List Frame)
    (result : Except Failure Ending × Live σ)
    (hbehind : (work.behind setting owner below passage after).Ends setting result) :
    (work.start setting owner below live).Ends setting result := by
  induction h generalizing owner below with
  | done =>
    refine (Walk.ends_iff_turn _ result).mpr ?_
    rw [Walk.turn_nil]
    exact hbehind
  | next _ _ ihvisit ihrest =>
    refine (Walk.ends_iff_turn _ result).mpr ?_
    rw [Walk.turn_cons]
    exact ihvisit none _ (ihrest owner below hbehind)
  | @last step rest site index live after ending _ ihvisit =>
    refine (Walk.ends_iff_turn _ result).mpr ?_
    rw [Walk.turn_cons]
    refine ihvisit none _ ?_
    rw [Work.behind, Passage.progress_atEnd]
    exact hbehind
  | cancelled hcancelled =>
    rw [Work.start, Walk.arrive_of_cancelled hcancelled]
    exact hbehind
  | skipped hgoes hfound =>
    rw [Work.start, Walk.arrive_eq hgoes, hfound]
    exact hbehind
  | stumbled hgoes hfound =>
    rw [Work.start, Walk.arrive_eq hgoes, hfound]
    exact hbehind
  | acted hgoes hfound hperform =>
    rw [Work.start, Walk.arrive_eq hgoes, hfound, Walk.found, hperform]
    exact hbehind
  | branched hgoes hfound _ ihbody =>
    rw [Work.start, Walk.arrive_eq hgoes, hfound]
    exact ihbody _ below hbehind
  | looped hgoes hfound _ ihturns =>
    rw [Work.start, Walk.arrive_eq hgoes, hfound]
    exact ihturns none below hbehind
  | halted hcancelled =>
    refine (Walk.ends_iff_turn _ result).mpr ?_
    rw [Walk.turn_loop, if_pos hcancelled]
    exact hbehind
  | refused hgoes hnext =>
    refine (Walk.ends_iff_turn _ result).mpr ?_
    rw [Walk.turn_loop, if_neg (by simp [hgoes]), Walk.nextTurn_eq, hnext]
    exact hbehind
  | turned hgoes hnext hturn _ _ ihbody ihrest =>
    refine (Walk.ends_iff_turn _ result).mpr ?_
    rw [Walk.turn_loop, if_neg (by simp [hgoes]), Walk.nextTurn_eq, hnext]
    dsimp only
    rw [if_pos hturn]
    exact ihbody none _ (ihrest none below hbehind)
  | brokenOff hgoes hnext hturn _ ihbody =>
    refine (Walk.ends_iff_turn _ result).mpr ?_
    rw [Walk.turn_loop, if_neg (by simp [hgoes]), Walk.nextTurn_eq, hnext]
    dsimp only
    rw [if_pos hturn]
    refine ihbody none _ ?_
    rw [Work.behind, Passage.progress_atEnd]
    exact hbehind
  | finished hgoes hnext hturn =>
    refine (Walk.ends_iff_turn _ result).mpr ?_
    rw [Walk.turn_loop, if_neg (by simp [hgoes]), Walk.nextTurn_eq, hnext]
    dsimp only
    rw [if_neg (by simp [hturn])]
    exact hbehind

/-! ### Walks that end -/

namespace Work

/-- Work that a walk does as the rules say whenever it ends within so many turns; no more turns
are left for what is below. -/
def Traced (setting : Setting σ) (turns : Nat) (work : Work) : Prop :=
  ∀ owner below live result, (work.start setting owner below live).follow setting turns =
      some result →
    ∃ passage after, Carried setting work live passage after ∧
      ∃ fewer ≤ turns,
        (work.behind setting owner below passage after).follow setting fewer = some result

theorem visit_traced {turns : Nat}
    (hlist : ∀ rest site index, (list rest site index).Traced setting turns)
    (hloop : ∀ owner body cursor, (loop owner body cursor).Traced setting turns)
    (step : Step) (place : Place) : (visit step place).Traced setting turns := by
  intro owner below live result h
  rw [start] at h
  cases hcancelled : live.isCancelled with
  | true =>
    rw [Walk.arrive_of_cancelled hcancelled] at h
    exact ⟨_, live, .cancelled hcancelled, turns, Nat.le_refl turns, h⟩
  | false =>
    rw [Walk.arrive_eq hcancelled] at h
    cases hfound : step.approach live.scope with
    | skip =>
      rw [hfound] at h
      exact ⟨_, _, .skipped hcancelled hfound, turns, Nat.le_refl turns, h⟩
    | stumble fault =>
      rw [hfound] at h
      exact ⟨_, _, .stumbled hcancelled hfound, turns, Nat.le_refl turns, h⟩
    | act header action =>
      rw [hfound, Walk.found] at h
      rcases hperform : (live.enter place).perform setting header action place
        (live.opened step place).startedAt with _ | ⟨answer, after⟩
      · rw [hperform] at h
        simp [Progress.follow] at h
      · rw [hperform] at h
        obtain ⟨_, _, -, rfl, -⟩ := Live.perform_cases hperform
        exact ⟨_, after, .acted hcancelled hfound hperform, turns, Nat.le_refl turns, h⟩
    | branch side chosen =>
      rw [hfound] at h
      obtain ⟨passage, after, hcarried, hrest⟩ := hlist _ _ _ _ below _ _ h
      exact ⟨passage, _, .branched hcancelled hfound hcarried, hrest⟩
    | loop body cursor =>
      rw [hfound] at h
      obtain ⟨passage, after, hcarried, hrest⟩ := hloop _ _ _ none below _ _ h
      exact ⟨passage, _, .looped hcancelled hfound hcarried, hrest⟩

theorem list_traced {turns : Nat} (hvisit : ∀ step place, (visit step place).Traced setting turns)
    (hlist : ∀ fewer ≤ turns, ∀ rest site index, (list rest site index).Traced setting fewer)
    (rest : List Step) (site : Site) (index : Nat) :
    (list rest site index).Traced setting (turns + 1) := by
  intro owner below live result h
  rw [start, Progress.follow, Walk.advance_succ] at h
  cases rest with
  | nil =>
    rw [Walk.turn_nil] at h
    exact ⟨.through, live, .done, turns, Nat.le_succ turns, h⟩
  | cons step others =>
    rw [Walk.turn_cons] at h
    obtain ⟨passage, middle, hcarried, fewer, hfewer, hrest⟩ := hvisit _ _ none _ _ _ h
    cases passage with
    | through =>
      obtain ⟨passage, after, hothers, least, hleast, hbehind⟩ :=
        hlist fewer hfewer _ _ _ owner below _ _ hrest
      exact ⟨passage, after, .next hcarried hothers, least, by omega, hbehind⟩
    | atEnd ending =>
      rw [behind, Passage.progress_atEnd] at hrest
      exact ⟨.atEnd ending, middle, .last hcarried, fewer, by omega, hrest⟩

theorem loop_traced {turns : Nat}
    (hlist : ∀ rest site index, (list rest site index).Traced setting turns)
    (hloop : ∀ fewer ≤ turns, ∀ owner body cursor, (loop owner body cursor).Traced setting fewer)
    (opened : Opened) (body : List Step) (cursor : Cursor) :
    (loop opened body cursor).Traced setting (turns + 1) := by
  intro owner below live result h
  rw [start, Progress.follow, Walk.advance_succ, Walk.turn_loop] at h
  cases hcancelled : live.isCancelled with
  | true =>
    rw [if_pos hcancelled] at h
    exact ⟨_, _, .halted hcancelled, turns, Nat.le_succ turns, h⟩
  | false =>
    rw [if_neg (by simp [hcancelled]), Walk.nextTurn_eq] at h
    cases hnext : cursor.next live.scope with
    | error fault =>
      rw [hnext] at h
      exact ⟨_, _, .refused hcancelled hnext, turns, Nat.le_succ turns, h⟩
    | ok turn =>
      rw [hnext] at h
      dsimp only at h
      by_cases hturn : turn.goesOn = true
      · rw [if_pos hturn] at h
        obtain ⟨passage, middle, hcarried, fewer, hfewer, hrest⟩ := hlist _ _ _ none _ _ _ h
        cases passage with
        | through =>
          obtain ⟨passage, after, hothers, least, hleast, hbehind⟩ :=
            hloop fewer hfewer _ _ _ none below _ _ hrest
          exact ⟨passage, after, .turned hcancelled hnext hturn hcarried hothers, least, by omega,
            hbehind⟩
        | atEnd ending =>
          rw [behind, Passage.progress_atEnd] at hrest
          exact ⟨.atEnd ending, _, .brokenOff hcancelled hnext hturn hcarried, fewer, by omega,
            hrest⟩
      · rw [if_neg hturn] at h
        exact ⟨.through, _, .finished hcancelled hnext (by simpa using hturn), turns,
          Nat.le_succ turns, h⟩

/-- A walk that ends has done the work of its topmost frame as the rules say. -/
theorem traced (turns : Nat) (work : Work) : work.Traced setting turns := by
  -- A list or a loop needs its own parts for fewer turns only, a visit for as many turns.
  have hframes : (∀ rest site index, (list rest site index).Traced setting turns) ∧
      ∀ owner body cursor, (loop owner body cursor).Traced setting turns := by
    induction turns using Nat.strongRecOn with
    | ind turns ih =>
      cases turns with
      | zero =>
        constructor
        · intro rest site index owner below live result h
          simp [start, Progress.follow, Walk.advance] at h
        · intro opened body cursor owner below live result h
          simp [start, Progress.follow, Walk.advance] at h
      | succ turns =>
        have hbefore := ih turns (Nat.lt_succ_self turns)
        constructor
        · exact list_traced (visit_traced hbefore.1 hbefore.2)
            fun fewer hfewer ↦ (ih fewer (Nat.lt_succ_of_le hfewer)).1
        · exact loop_traced hbefore.1 fun fewer hfewer ↦ (ih fewer (Nat.lt_succ_of_le hfewer)).2
  cases work with
  | list rest site index => exact hframes.1 rest site index
  | visit step place => exact visit_traced hframes.1 hframes.2 step place
  | loop owner body cursor => exact hframes.2 owner body cursor

end Work

/-! ### Agreement -/

namespace Walk

theorem ends_bottom (passage : Passage) (live : Live σ)
    (result : Except Failure Ending × Live σ) :
    (passage.progress setting ⟨live, []⟩).Ends setting result ↔
      result = (.ok passage.ending, live) := by
  cases passage with
  | through =>
    refine (ends_iff_turn _ result).trans ?_
    constructor
    · rintro ⟨turns, h⟩
      exact (Option.some.inj h).symm
    · rintro rfl
      exact ⟨0, rfl⟩
  | atEnd ending =>
    constructor
    · rintro ⟨turns, h⟩
      exact (Option.some.inj h).symm
    · rintro rfl
      exact ⟨0, rfl⟩

/-- A walk over a list of steps ends exactly when the rules carry the list out. -/
theorem ends_iff_carried (rest : List Step) (live : Live σ)
    (result : Except Failure Ending × Live σ) :
    (Progress.going ⟨live, [.steps rest [] 0 none]⟩).Ends setting result ↔
      ∃ passage after, Carried setting (.list rest [] 0) live passage after ∧
        result = (.ok passage.ending, after) := by
  constructor
  · rintro ⟨turns, h⟩
    obtain ⟨passage, after, hcarried, fewer, -, hbehind⟩ :=
      Work.traced turns (.list rest [] 0) none [] live result h
    exact ⟨passage, after, hcarried, (ends_bottom passage after result).mp ⟨fewer, hbehind⟩⟩
  · rintro ⟨passage, after, hcarried, rfl⟩
    exact hcarried.ends none [] _ ((ends_bottom passage after _).mpr rfl)

end Walk

namespace Workflow

/-- The walk of a checked document at its first step. -/
def firstWalk (validated : Validated) (host : Host σ) (options : RunParameters) (live : Live σ) :
    Walk σ :=
  validated.workflow.start options
    (announce validated (validated.workflow.setting host options) live)

/-- A run of a checked document when it comes to its first step. -/
def opening (validated : Validated) (host : Host σ) (options : RunParameters) (live : Live σ) :
    Live σ :=
  (firstWalk validated host options live).live

/-- What a run of a checked document leaves behind when its steps were carried out. -/
def closing (validated : Validated) (host : Host σ) (options : RunParameters) (live : Live σ)
    (passage : Passage) (after : Live σ) : Except Failure RunResult × Live σ :=
  let told := conclude passage.ending live.time (validated.workflow.setting host options) after
  (.ok (validated.workflow.result options live.time passage.ending told), told)

variable {host : Host σ} {options : RunParameters} {document : Datum} {live : Live σ}
  {validated : Validated}

theorem run_of_validate (hvalid : validate document = .ok validated) (turns : Nat) :
    run host options document turns live =
      match (firstWalk validated host options live).advance
        (validated.workflow.setting host options) turns with
      | none => none
      | some (.error failure, after) => some (.error failure, after)
      | some (.ok ending, after) =>
        let told := conclude ending live.time (validated.workflow.setting host options) after
        some (.ok (validated.workflow.result options live.time ending told), told) := by
  rw [run, hvalid]
  rfl

/-- The run of a checked document ends when its steps are carried out. -/
theorem run_iff_carried (hvalid : validate document = .ok validated)
    (outcome : Except Failure RunResult × Live σ) :
    (∃ turns, run host options document turns live = some outcome) ↔
      ∃ passage after,
        Carried (validated.workflow.setting host options) (.list validated.workflow.steps [] 0)
          (opening validated host options live) passage after ∧
        outcome = closing validated host options live passage after := by
  have hends := @Walk.ends_iff_carried σ (validated.workflow.setting host options)
    validated.workflow.steps (opening validated host options live)
  constructor
  · rintro ⟨turns, h⟩
    rw [run_of_validate hvalid] at h
    split at h
    · simp at h
    · next failure after hwalk =>
      obtain ⟨passage, _, _, hresult⟩ := (hends _).mp ⟨turns, hwalk⟩
      simp at hresult
    · next ending after hwalk =>
      obtain ⟨passage, _, hcarried, hresult⟩ := (hends _).mp ⟨turns, hwalk⟩
      obtain ⟨hending, rfl⟩ := Prod.mk.inj hresult
      obtain rfl := Except.ok.inj hending
      exact ⟨passage, after, hcarried, (Option.some.inj h).symm⟩
  · rintro ⟨passage, after, hcarried, rfl⟩
    obtain ⟨turns, hwalk⟩ := (hends _).mpr ⟨passage, after, hcarried, rfl⟩
    have hadvance : (firstWalk validated host options live).advance
        (validated.workflow.setting host options) turns = some (.ok passage.ending, after) := hwalk
    refine ⟨turns, ?_⟩
    rw [run_of_validate hvalid, hadvance]
    rfl

/-- A run that returns a result was a run of a checked document, and its steps were carried out. -/
theorem carried_of_run {turns : Nat} {result : RunResult} {after : Live σ}
    (hrun : run host options document turns live = some (.ok result, after)) :
    ∃ validated passage middle, validate document = .ok validated ∧
      Carried (validated.workflow.setting host options) (.list validated.workflow.steps [] 0)
        (opening validated host options live) passage middle ∧
      after = conclude passage.ending live.time (validated.workflow.setting host options) middle ∧
      result = validated.workflow.result options live.time passage.ending after := by
  cases hvalid : validate document with
  | error fault =>
    rw [run, hvalid] at hrun
    simp at hrun
  | ok validated =>
    obtain ⟨passage, middle, hcarried, hclosing⟩ := (run_iff_carried hvalid _).mp ⟨turns, hrun⟩
    obtain ⟨hresult, rfl⟩ := Prod.mk.inj hclosing
    exact ⟨validated, passage, middle, rfl, hcarried, rfl, Except.ok.inj hresult⟩

/-- The recursion on a checked document ends when its steps are carried out. -/
theorem runByRecursion_iff_carried (hvalid : validate document = .ok validated)
    (outcome : Except Failure RunResult × Live σ) :
    runByRecursion host options document live = some outcome ↔
      ∃ passage after,
        Carried (validated.workflow.setting host options) (.list validated.workflow.steps [] 0)
          (opening validated host options live) passage after ∧
        outcome = closing validated host options live passage after := by
  rw [runByRecursion, hvalid]
  constructor
  · intro h
    obtain ⟨⟨found, after⟩, hsteps, h⟩ := Option.bind_eq_some_iff.mp h
    obtain ⟨passage, rfl, hcarried⟩ := Work.reached_of_compute hsteps
    exact ⟨passage, after, hcarried, (Option.some.inj h).symm⟩
  · rintro ⟨passage, after, hcarried, rfl⟩
    exact Option.bind_eq_some_iff.mpr ⟨_, hcarried.compute, rfl⟩

/-- A document is run with a stack of frames exactly as it is run by recursion on its steps: one
run comes to an end if and only if the other does, with the same requests and other events, the
same outcomes, the same environment and the same result. -/
theorem run_iff_runByRecursion (host : Host σ) (options : RunParameters) (document : Datum)
    (live : Live σ) (outcome : Except Failure RunResult × Live σ) :
    (∃ turns, run host options document turns live = some outcome) ↔
      runByRecursion host options document live = some outcome := by
  cases hvalid : validate document with
  | ok validated =>
    exact (run_iff_carried hvalid outcome).trans (runByRecursion_iff_carried hvalid outcome).symm
  | error fault =>
    -- A document that is refused is not run at all.
    constructor
    · rintro ⟨turns, h⟩
      rw [run, hvalid] at h
      rw [runByRecursion, hvalid]
      exact h
    · intro h
      rw [runByRecursion, hvalid] at h
      refine ⟨0, ?_⟩
      rw [run, hvalid]
      exact h

end Workflow

end BrowserFlow
