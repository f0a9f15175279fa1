import BrowserFlow.Proofs.Fault.Thrown
import BrowserFlow.Run.Live

/-!
What carrying a step out under its policy comes to, whatever the attempts work
on. `Tries` says once how attempts can go, and three rules follow for every
step: what an attempt, a pause and the entries about attempts keep is kept by all
of it (`carryOut_follows`, `carryOut_keeps`), and that the run goes on after a
failure is written last of all (`carryOut_signsOff`); attempts that throw errors
leave nothing unnamed (`carryOut_named`); and a failure ends the run exactly when
the policy is not to continue, and is one that preparation or an attempt has
thrown, or the exhaustion of the last of these (`carryOut_failed`). An action of
a run is such a step, and whatever its attempts throw is an error
(`perform_cases`): an attempt makes a request, binds a name or does nothing
(`attempt_cases`), and it succeeds or fails with what comes of this
(`attempt_ok`, `attempt_error`).
-/

set_option autoImplicit false
set_option relaxedAutoImplicit false

namespace BrowserFlow

/-- How often a step was attempted. -/
def Attempted.attempts {β : Type} : Attempted β → Nat
  | .done attempts _ => attempts
  | .failed attempts _ _ => attempts

namespace Policy

variable {W α β : Type}

/-- The fault of a step whose last attempt has failed. -/
def lastFault (header : StepHeader) (made : Nat) (fault : Fault) : Fault :=
  if header.policy = .retry then .exhausted header.name made (.fault fault) else fault

/-- How attempts can go: with so many left, those made so far counting the next one. -/
inductive Tries (around : Surroundings W) (header : StepHeader) (plan : RetryPlan)
    (attempt : W → Option (Except Datum β × W)) :
    Nat → Nat → W → Except Failure (Attempted β) → W → Prop
  /-- An attempt gives a value. -/
  | done {left made : Nat} {w after : W} {value : β}
      (hattempt : attempt w = some (.ok value, after)) :
      Tries around header plan attempt left made w (.ok (.done made value)) after
  /-- An attempt throws what cannot be named. -/
  | unnamed {left made : Nat} {w after : W} {thrown : Datum} {failure : Failure}
      (hattempt : attempt w = some (.error thrown, after))
      (hfault : Fault.classify (whereabouts header) thrown = .error failure) :
      Tries around header plan attempt left made w (.error failure) after
  /-- The last attempt fails. -/
  | spent {made : Nat} {w middle : W} {thrown : Datum} {fault : Fault}
      (hattempt : attempt w = some (.error thrown, middle))
      (hfault : Fault.classify (whereabouts header) thrown = .ok fault) :
      Tries around header plan attempt 0 made w
        (.ok (giveUp around header made (lastFault header made fault) middle).1)
        (giveUp (β := β) around header made (lastFault header made fault) middle).2
  /-- An attempt fails and the run is cancelled. -/
  | halted {left made : Nat} {w middle : W} {thrown : Datum} {fault : Fault}
      (hattempt : attempt w = some (.error thrown, middle))
      (hfault : Fault.classify (whereabouts header) thrown = .ok fault)
      (hcancelled : around.isCancelled middle = true) :
      Tries around header plan attempt (left + 1) made w
        (.ok (giveUp around header made fault middle).1)
        (giveUp (β := β) around header made fault middle).2
  /-- An attempt fails, and after a pause another one is made. -/
  | again {left made : Nat} {w middle after : W} {thrown : Datum} {fault : Fault}
      {result : Except Failure (Attempted β)}
      (hattempt : attempt w = some (.error thrown, middle))
      (hfault : Fault.classify (whereabouts header) thrown = .ok fault)
      (hcancelled : around.isCancelled middle = false)
      (hrest : Tries around header plan attempt left (made + 1)
        (around.pause plan.pause (around.log .warn "Step attempt failed, retrying"
          (retriedDetails header.name plan made fault) middle)) result after) :
      Tries around header plan attempt (left + 1) made w result after

variable {around : Surroundings W} {header : StepHeader} {plan : RetryPlan}
  {attempt : W → Option (Except Datum β × W)}

theorem tries_of_attempts {left made : Nat} {w after : W} {result : Except Failure (Attempted β)}
    (h : attempts around header plan attempt left made w = some (result, after)) :
    Tries around header plan attempt left made w result after := by
  induction left generalizing made w with
  | zero =>
    unfold attempts at h
    split at h
    · simp at h
    · next hattempt =>
      obtain ⟨rfl, rfl⟩ := Prod.mk.inj (Option.some.inj h)
      exact .done hattempt
    · next hattempt =>
      split at h
      · next hfault =>
        obtain ⟨rfl, rfl⟩ := Prod.mk.inj (Option.some.inj h)
        exact .unnamed hattempt hfault
      · next hfault =>
        obtain ⟨rfl, rfl⟩ := Prod.mk.inj (Option.some.inj h)
        exact .spent hattempt hfault
  | succ left ih =>
    unfold attempts at h
    split at h
    · simp at h
    · next hattempt =>
      obtain ⟨rfl, rfl⟩ := Prod.mk.inj (Option.some.inj h)
      exact .done hattempt
    · next middle hattempt =>
      split at h
      · next hfault =>
        obtain ⟨rfl, rfl⟩ := Prod.mk.inj (Option.some.inj h)
        exact .unnamed hattempt hfault
      · next hfault =>
        dsimp only at h
        by_cases hcancelled : around.isCancelled middle = true
        · rw [if_pos hcancelled] at h
          obtain ⟨rfl, rfl⟩ := Prod.mk.inj (Option.some.inj h)
          exact .halted hattempt hfault hcancelled
        · rw [if_neg hcancelled] at h
          exact .again hattempt hfault (by simpa using hcancelled) (ih h)

/-! ### Giving up -/

theorem giveUp_fst (made : Nat) (fault : Fault) (w : W) :
    (giveUp (β := β) around header made fault w).1 =
      .failed made fault (decide (header.policy ≠ .continue)) := by
  unfold giveUp
  by_cases hpolicy : header.policy = .continue <;> simp [hpolicy]

/-- What is written behind the attempts at a step: an entry where it has failed and the run goes
on. -/
def signOff (around : Surroundings W) (header : StepHeader)
    (result : Except Failure (Attempted β)) (w : W) : W :=
  match result with
  | .ok (.failed made fault false) =>
    around.log .warn "Step failed, continuing" (continuedDetails header.name made fault) w
  | _ => w

theorem giveUp_snd (made : Nat) (fault : Fault) (w : W) :
    (giveUp (β := β) around header made fault w).2 =
      signOff (β := β) around header (.ok (giveUp around header made fault w).1) w := by
  unfold giveUp
  split <;> rfl

theorem signOff_keeps {R : W → W → Prop} (hrefl : ∀ w, R w w)
    (htolerate : header.policy = .continue → ∀ made fault w, R w (around.log .warn
      "Step failed, continuing" (continuedDetails header.name made fault) w))
    {result : Except Failure (Attempted β)}
    (hpolicy : ∀ made fault, result = .ok (.failed made fault false) → header.policy = .continue)
    (w : W) : R w (signOff around header result w) := by
  unfold signOff
  split
  · exact htolerate (hpolicy _ _ rfl) _ _ w
  · exact hrefl w

theorem giveUp_keeps {R : W → W → Prop} (hrefl : ∀ w, R w w)
    (hlog : ∀ level message details w, R w (around.log level message details w)) (made : Nat)
    (fault : Fault) (w : W) : R w (giveUp (β := β) around header made fault w).2 := by
  unfold giveUp
  split
  · exact hlog _ _ _ w
  · exact hrefl w

theorem giveUp_counts {counted : Nat → W → Prop}
    (hlog : ∀ level message details count w, counted count w →
      counted count (around.log level message details w)) (made : Nat) (fault : Fault) {w : W}
    (hw : counted made w) :
    counted (giveUp (β := β) around header made fault w).1.attempts
      (giveUp (β := β) around header made fault w).2 := by
  rw [giveUp_fst, giveUp]
  split
  · exact hlog _ _ _ _ _ hw
  · exact hw

/-! ### What holds of all attempts -/

/-- What an attempt, a pause and the entry about a further attempt keep is kept by all attempts up to
what is written behind them; only where the policy is to retry are there any left. -/
theorem Tries.signsOff {R : W → W → Prop}
    (htrans : ∀ {first second third}, R first second → R second third → R first third)
    (hretry : header.policy = .retry → ∀ made fault w, R w (around.log .warn
      "Step attempt failed, retrying" (retriedDetails header.name plan made fault) w))
    (hpause : ∀ milliseconds w, R w (around.pause milliseconds w))
    (hkeeps : ∀ w answer after, attempt w = some (answer, after) → R w after)
    {left made : Nat} {w after : W} {result : Except Failure (Attempted β)}
    (h : Tries around header plan attempt left made w result after)
    (hleft : left ≠ 0 → header.policy = .retry) :
    ∃ middle, R w middle ∧ after = signOff around header result middle := by
  induction h with
  | done hattempt | unnamed hattempt _ => exact ⟨_, hkeeps _ _ _ hattempt, rfl⟩
  | spent hattempt _ | halted hattempt _ _ => exact ⟨_, hkeeps _ _ _ hattempt, giveUp_snd _ _ _⟩
  | again hattempt _ _ _ ih =>
    have hpolicy := hleft (Nat.succ_ne_zero _)
    obtain ⟨middle, hrest, rfl⟩ := ih fun _ ↦ hpolicy
    exact ⟨middle, htrans (hkeeps _ _ _ hattempt) (htrans (hretry hpolicy _ _ _)
      (htrans (hpause _ _) hrest)), rfl⟩

/-- Attempts that only throw errors end with something that can be named. -/
theorem Tries.named
    (hthrown : ∀ w thrown after, attempt w = some (.error thrown, after) →
      ∃ failure, thrown = .failure failure)
    {left made : Nat} {w after : W} {result : Except Failure (Attempted β)}
    (h : Tries around header plan attempt left made w result after) :
    ∃ attempted, result = .ok attempted := by
  induction h with
  | done _ => exact ⟨_, rfl⟩
  | unnamed hattempt hfault =>
    obtain ⟨failure, rfl⟩ := hthrown _ _ _ hattempt
    obtain ⟨fault, hok⟩ := Fault.classify_failure (whereabouts header) failure
    rw [hok] at hfault
    simp at hfault
  | spent _ _ => exact ⟨_, rfl⟩
  | halted _ _ _ => exact ⟨_, rfl⟩
  | again _ _ _ _ ih => exact ih

/-- A failure of attempts ends the run unless the policy is to continue, and it is one that an
attempt has thrown, or the exhaustion of the last of these. -/
theorem Tries.failed {Q : Fault → Prop}
    (hthrown : ∀ w thrown after fault, attempt w = some (.error thrown, after) →
      Fault.classify (whereabouts header) thrown = .ok fault → Q fault)
    (hlast : ∀ made fault, Q fault → Q (lastFault header made fault))
    {left made count : Nat} {w after : W} {fault : Fault} {ends : Bool}
    (h : Tries around header plan attempt left made w (.ok (.failed count fault ends)) after) :
    ends = decide (header.policy ≠ .continue) ∧ Q fault := by
  generalize hresult :
    (.ok (.failed count fault ends) : Except Failure (Attempted β)) = result at h
  induction h with
  | done _ => simp at hresult
  | unnamed _ _ => simp at hresult
  | spent hattempt hfault =>
    rw [giveUp_fst] at hresult
    obtain ⟨rfl, rfl, rfl⟩ := Attempted.failed.inj (Except.ok.inj hresult)
    exact ⟨rfl, hlast _ _ (hthrown _ _ _ _ hattempt hfault)⟩
  | halted hattempt hfault _ =>
    rw [giveUp_fst] at hresult
    obtain ⟨rfl, rfl, rfl⟩ := Attempted.failed.inj (Except.ok.inj hresult)
    exact ⟨rfl, hthrown _ _ _ _ hattempt hfault⟩
  | again _ _ _ _ ih => exact ih hresult

/-- What attempts count is their number, in the end that of the result. -/
theorem Tries.counts {counted : Nat → W → Prop}
    (hlog : ∀ level message details count w, counted count w →
      counted count (around.log level message details w))
    (hpause : ∀ milliseconds count w, counted count w → counted count (around.pause milliseconds w))
    (hattempt : ∀ count w answer after, counted count w → attempt w = some (answer, after) →
      counted (count + 1) after)
    {left count : Nat} {w after : W} {result : Except Failure (Attempted β)}
    (h : Tries around header plan attempt left (count + 1) w result after)
    (hw : counted count w) {attempted : Attempted β} (hresult : result = .ok attempted) :
    counted attempted.attempts after := by
  generalize hmade : count + 1 = made at h
  induction h generalizing count with
  | done hdone =>
    obtain rfl := Except.ok.inj hresult
    exact hmade ▸ hattempt _ _ _ _ hw hdone
  | unnamed => cases hresult
  | spent hfails _ | halted hfails _ _ =>
    obtain rfl := Except.ok.inj hresult
    subst hmade
    exact giveUp_counts hlog _ _ (hattempt _ _ _ _ hw hfails)
  | again hfails _ _ _ ih =>
    subst hmade
    exact ih (hpause _ _ _ (hlog _ _ _ _ _ (hattempt _ _ _ _ hw hfails))) hresult rfl

/-! ### What holds of a step -/

section CarryOut

variable {standard : RetryPlan} {undertaking : Undertaking W α β} {w after : W}

/-- How a step is carried out: its preparation fails, or it is attempted. -/
theorem carryOut_cases {result : Except Failure (Attempted β)}
    (h : carryOut around header standard undertaking w = some (result, after)) :
    (∃ thrown failure, undertaking.prepared = .error thrown ∧
      Fault.classify (whereabouts header) thrown = .error failure ∧
      result = .error failure ∧ after = w) ∨
    (∃ thrown fault, undertaking.prepared = .error thrown ∧
      Fault.classify (whereabouts header) thrown = .ok fault ∧
      result = .ok (giveUp around header 0 fault w).1 ∧
      after = (giveUp (β := β) around header 0 fault w).2) ∨
    (∃ prepared, undertaking.prepared = .ok prepared ∧
      Tries around header (header.plan standard) (undertaking.attempt prepared)
        (header.turns standard - 1) 1 w result after) := by
  unfold carryOut at h
  split at h
  · next thrown hprepared =>
    split at h
    · next failure hfault =>
      obtain ⟨rfl, rfl⟩ := Prod.mk.inj (Option.some.inj h)
      exact .inl ⟨thrown, failure, hprepared, hfault, rfl, rfl⟩
    · next fault hfault =>
      obtain ⟨rfl, rfl⟩ := Prod.mk.inj (Option.some.inj h)
      exact .inr (.inl ⟨thrown, fault, hprepared, hfault, rfl, rfl⟩)
  · next prepared hprepared => exact .inr (.inr ⟨prepared, hprepared, tries_of_attempts h⟩)

theorem policy_of_turns (h : header.turns standard - 1 ≠ 0) : header.policy = .retry := by
  unfold StepHeader.turns at h
  split at h
  · next hpolicy => exact hpolicy
  · exact absurd rfl h

/-- A step that only throws errors ends with something that can be named. -/
theorem carryOut_named
    (hprepared : ∀ thrown, undertaking.prepared = .error thrown →
      ∃ failure, thrown = .failure failure)
    (hthrown : ∀ prepared w thrown after,
      undertaking.attempt prepared w = some (.error thrown, after) →
      ∃ failure, thrown = .failure failure)
    {result : Except Failure (Attempted β)}
    (h : carryOut around header standard undertaking w = some (result, after)) :
    ∃ attempted, result = .ok attempted := by
  rcases carryOut_cases h with
    ⟨thrown, failure, hthrow, hfault, -, -⟩ | ⟨_, _, _, _, rfl, -⟩ | ⟨prepared, _, htries⟩
  · obtain ⟨cause, rfl⟩ := hprepared thrown hthrow
    obtain ⟨fault, hok⟩ := Fault.classify_failure (whereabouts header) cause
    rw [hok] at hfault
    simp at hfault
  · exact ⟨_, rfl⟩
  · exact htries.named (hthrown prepared)

/-- A failure ends the run unless the policy is to continue, and it is one that preparation or an
attempt has thrown, or the exhaustion of the last of these. -/
theorem carryOut_failed {Q : Fault → Prop}
    (hprepared : ∀ thrown fault, undertaking.prepared = .error thrown →
      Fault.classify (whereabouts header) thrown = .ok fault → Q fault)
    (hthrown : ∀ prepared w thrown after fault,
      undertaking.attempt prepared w = some (.error thrown, after) →
      Fault.classify (whereabouts header) thrown = .ok fault → Q fault)
    (hlast : ∀ made fault, Q fault → Q (lastFault header made fault))
    {count : Nat} {fault : Fault} {ends : Bool}
    (h : carryOut around header standard undertaking w =
      some (.ok (.failed count fault ends), after)) :
    ends = decide (header.policy ≠ .continue) ∧ Q fault := by
  rcases carryOut_cases h with
    ⟨_, _, _, _, hresult, -⟩ | ⟨thrown, cause, hthrow, hfault, hresult, -⟩ | ⟨prepared, _, htries⟩
  · simp at hresult
  · rw [giveUp_fst] at hresult
    obtain ⟨rfl, rfl, rfl⟩ := Attempted.failed.inj (Except.ok.inj hresult)
    exact ⟨rfl, hprepared thrown fault hthrow hfault⟩
  · exact htries.failed (hthrown prepared) hlast

/-- What an attempt, a pause and the entry about a further attempt keep is kept by a step up to what
is written behind its attempts. -/
theorem carryOut_signsOff {R : W → W → Prop} (hrefl : ∀ w, R w w)
    (htrans : ∀ {first second third}, R first second → R second third → R first third)
    (hretry : header.policy = .retry → ∀ made fault w, R w (around.log .warn
      "Step attempt failed, retrying"
      (retriedDetails header.name (header.plan standard) made fault) w))
    (hpause : ∀ milliseconds w, R w (around.pause milliseconds w))
    (hkeeps : ∀ prepared w answer after, undertaking.prepared = .ok prepared →
      undertaking.attempt prepared w = some (answer, after) → R w after)
    {result : Except Failure (Attempted β)}
    (h : carryOut around header standard undertaking w = some (result, after)) :
    ∃ middle, R w middle ∧ after = signOff around header result middle := by
  rcases carryOut_cases h with ⟨_, _, _, _, rfl, rfl⟩ | ⟨_, _, _, _, rfl, rfl⟩ |
    ⟨prepared, hprepared, htries⟩
  · exact ⟨_, hrefl _, rfl⟩
  · exact ⟨_, hrefl _, giveUp_snd _ _ _⟩
  · exact htries.signsOff (R := R) htrans hretry hpause
      (fun w answer after ↦ hkeeps prepared w answer after hprepared) policy_of_turns

/-- A failure ends the run unless the policy is to continue. -/
theorem ends_of_carryOut {count : Nat} {fault : Fault} {ends : Bool}
    (h : carryOut around header standard undertaking w =
      some (.ok (.failed count fault ends), after)) : ends = decide (header.policy ≠ .continue) :=
  (carryOut_failed (Q := fun _ ↦ True) (fun _ _ _ _ ↦ trivial) (fun _ _ _ _ _ _ _ ↦ trivial)
    (fun _ _ _ ↦ trivial) h).1

/-- What an attempt, a pause and the entries about attempts keep is kept by a step; there are such
entries only where the policy asks for them. -/
theorem carryOut_follows {R : W → W → Prop} (hrefl : ∀ w, R w w)
    (htrans : ∀ {first second third}, R first second → R second third → R first third)
    (htolerate : header.policy = .continue → ∀ made fault w, R w (around.log .warn
      "Step failed, continuing" (continuedDetails header.name made fault) w))
    (hretry : header.policy = .retry → ∀ made fault w, R w (around.log .warn
      "Step attempt failed, retrying"
      (retriedDetails header.name (header.plan standard) made fault) w))
    (hpause : ∀ milliseconds w, R w (around.pause milliseconds w))
    (hkeeps : ∀ prepared w answer after, undertaking.prepared = .ok prepared →
      undertaking.attempt prepared w = some (answer, after) → R w after)
    {result : Except Failure (Attempted β)}
    (h : carryOut around header standard undertaking w = some (result, after)) : R w after := by
  obtain ⟨middle, hmiddle, rfl⟩ := carryOut_signsOff (R := R) hrefl htrans hretry hpause hkeeps h
  have hpolicy : ∀ made fault, result = .ok (.failed made fault false) →
      header.policy = .continue := by
    rintro made fault rfl
    simpa using ends_of_carryOut h
  exact htrans hmiddle (signOff_keeps (R := R) hrefl htolerate hpolicy middle)

/-- What an attempt, a log entry and a pause keep is kept by a step. -/
theorem carryOut_keeps {R : W → W → Prop} (hrefl : ∀ w, R w w)
    (htrans : ∀ {first second third}, R first second → R second third → R first third)
    (hlog : ∀ level message details w, R w (around.log level message details w))
    (hpause : ∀ milliseconds w, R w (around.pause milliseconds w))
    (hkeeps : ∀ prepared w answer after,
      undertaking.attempt prepared w = some (answer, after) → R w after)
    {result : Except Failure (Attempted β)}
    (h : carryOut around header standard undertaking w = some (result, after)) : R w after :=
  carryOut_follows hrefl htrans (fun _ _ _ w ↦ hlog _ _ _ w) (fun _ _ _ w ↦ hlog _ _ _ w) hpause
    (fun prepared w answer after _ ↦ hkeeps prepared w answer after) h

/-- What attempts count is none before the first, and in the end the number of the result. -/
theorem carryOut_counts (counted : Nat → W → Prop)
    (hlog : ∀ level message details count w, counted count w →
      counted count (around.log level message details w))
    (hpause : ∀ milliseconds count w, counted count w → counted count (around.pause milliseconds w))
    (hattempt : ∀ prepared count w answer after, undertaking.prepared = .ok prepared →
      counted count w → undertaking.attempt prepared w = some (answer, after) →
      counted (count + 1) after)
    {attempted : Attempted β}
    (h : carryOut around header standard undertaking w = some (.ok attempted, after))
    (hw : counted 0 w) : counted attempted.attempts after := by
  rcases carryOut_cases h with ⟨_, _, _, _, hresult, -⟩ | ⟨_, _, _, _, hresult, rfl⟩ |
    ⟨prepared, hprepared, htries⟩
  · cases hresult
  · obtain rfl := Except.ok.inj hresult
    exact giveUp_counts hlog _ _ hw
  · exact htries.counts hlog hpause
      (fun count w answer after ↦ hattempt prepared count w answer after hprepared) hw rfl

end CarryOut

end Policy

/-! ### What holds of an action -/

namespace Live

variable {σ : Type} {setting : Setting σ} {header : StepHeader} {action : Action}
  {live after : Live σ}

/-- An action of a run as a step to be carried out. -/
def undertaking (setting : Setting σ) (header : StepHeader) (action : Action) (live : Live σ) :
    Undertaking (Live σ) Task (Option Value) :=
  let recorded : Value := .sequence (live.outcomes.map Outcome.toValue)
  let task := action.task live.scope (header.timeout.getD setting.waitForTimeout) recorded
  ⟨task.mapError fun fault ↦ .failure (.fault fault), attempt setting header⟩

/-- An action is not prepared only when its task has a fault. -/
theorem undertaking_prepared {thrown : Datum}
    (h : (undertaking setting header action live).prepared = .error thrown) :
    ∃ timeout recorded fault, action.task live.scope timeout recorded = .error fault ∧
      thrown = .failure (.fault fault) := by
  unfold undertaking at h
  dsimp only at h
  cases htask : action.task live.scope (header.timeout.getD setting.waitForTimeout)
      (.sequence (live.outcomes.map Outcome.toValue)) with
  | ok task =>
    rw [htask] at h
    cases h
  | error fault =>
    rw [htask] at h
    exact ⟨_, _, fault, htask, (Except.error.inj h).symm⟩

/-- An attempt that succeeds: the answer to a request gives the value, an assignment binds it, and
the end of the run has its reason for a value. -/
theorem attempt_ok {task : Task} {slot : Option Value}
    (h : live.attempt setting header task = some (.ok slot, after)) :
    (∃ call answer, task = .request call ∧ live.ask setting header call = some (.ok answer, after) ∧
      call.result answer = .ok slot) ∨
    (∃ name value, task = .assign name value false ∧ slot = some value ∧
      after = live.bind name slot) ∨
    (∃ name value items, task = .assign name value true ∧
      live.environment.extended name value = .ok items ∧ slot = some (.sequence items) ∧
      after = live.bind name slot) ∨
    (∃ reason, task = .halt reason ∧ slot = some ((reason.map Value.text).getD .null) ∧
      after = live) := by
  cases task with
  | request call =>
    rw [attempt] at h
    rcases hask : live.ask setting header call with _ | ⟨_ | answer, middle⟩
    · simp [hask] at h
    · simp [hask] at h
    · simp only [hask] at h
      split at h
      · next value hresult =>
        obtain ⟨hvalue, rfl⟩ := Prod.mk.inj (Option.some.inj h)
        exact .inl ⟨call, answer, rfl, hask, Except.ok.inj hvalue ▸ hresult⟩
      · simp at h
  | assign name value append =>
    cases append with
    | false =>
      obtain ⟨hvalue, rfl⟩ := Prod.mk.inj (Option.some.inj h)
      obtain rfl := Except.ok.inj hvalue
      exact .inr (.inl ⟨name, value, rfl, rfl, rfl⟩)
    | true =>
      rw [attempt] at h
      split at h
      · next items hitems =>
        obtain ⟨hvalue, rfl⟩ := Prod.mk.inj (Option.some.inj h)
        obtain rfl := Except.ok.inj hvalue
        exact .inr (.inr (.inl ⟨name, value, items, rfl, hitems, rfl, rfl⟩))
      · simp at h
  | halt reason =>
    cases reason with
    | none =>
      obtain ⟨hvalue, rfl⟩ := Prod.mk.inj (Option.some.inj h)
      exact .inr (.inr (.inr ⟨none, rfl, (Except.ok.inj hvalue).symm, rfl⟩))
    | some reason =>
      obtain ⟨hvalue, rfl⟩ := Prod.mk.inj (Option.some.inj h)
      exact .inr (.inr (.inr ⟨some reason, rfl, (Except.ok.inj hvalue).symm, rfl⟩))

/-- An attempt that fails: its request is refused, what the request is answered with has no value, or
there is nothing that an assignment could add to. What is thrown is an error that names the step. -/
theorem attempt_error {task : Task} {thrown : Datum}
    (h : live.attempt setting header task = some (.error thrown, after)) :
    ∃ what, thrown = .failure (Fault.ofThrown ⟨some header.name, task.selector?⟩ what) ∧
      ((∃ call, task = .request call ∧
          live.ask setting header call = some (.error what, after)) ∨
        (∃ call answer failure, task = .request call ∧
          live.ask setting header call = some (.ok answer, after) ∧
          call.result answer = .error failure ∧ what = .failure failure) ∨
        (∃ name value fault, task = .assign name value true ∧
          live.environment.extended name value = .error fault ∧
          what = .failure (.fault fault) ∧ after = live)) := by
  cases task with
  | request call =>
    rw [attempt] at h
    rcases hask : live.ask setting header call with _ | ⟨what | answer, middle⟩
    · simp [hask] at h
    · simp only [hask] at h
      obtain ⟨hthrown, rfl⟩ := Prod.mk.inj (Option.some.inj h)
      exact ⟨what, (Except.error.inj hthrown).symm, .inl ⟨call, rfl, hask⟩⟩
    · simp only [hask] at h
      split at h
      · simp at h
      · next failure hresult =>
        obtain ⟨hthrown, rfl⟩ := Prod.mk.inj (Option.some.inj h)
        exact ⟨_, (Except.error.inj hthrown).symm,
          .inr (.inl ⟨call, answer, failure, rfl, hask, hresult, rfl⟩)⟩
  | assign name value append =>
    cases append with
    | false => simp [attempt] at h
    | true =>
      rw [attempt] at h
      split at h
      · simp at h
      · next fault hextended =>
        obtain ⟨hthrown, rfl⟩ := Prod.mk.inj (Option.some.inj h)
        exact ⟨_, (Except.error.inj hthrown).symm,
          .inr (.inr ⟨name, value, fault, rfl, hextended, rfl, rfl⟩)⟩
  | halt reason => cases reason <;> simp [attempt] at h

/-- Whatever comes of an attempt, it has made its request, or it has bound a name or done nothing. -/
theorem attempt_cases {task : Task} {result : Except Datum (Option Value)}
    (h : live.attempt setting header task = some (result, after)) :
    (∃ call answer, task = .request call ∧ live.ask setting header call = some (answer, after)) ∨
    ((∀ call, task ≠ .request call) ∧
      ((∃ name slot, after = live.bind name slot) ∨ after = live)) := by
  cases result with
  | ok slot =>
    rcases attempt_ok h with ⟨call, answer, rfl, hask, -⟩ | ⟨name, _, rfl, -, rfl⟩ |
      ⟨name, _, _, rfl, -, -, rfl⟩ | ⟨_, rfl, -, rfl⟩
    · exact .inl ⟨call, _, rfl, hask⟩
    · exact .inr ⟨by simp, .inl ⟨name, slot, rfl⟩⟩
    · exact .inr ⟨by simp, .inl ⟨name, slot, rfl⟩⟩
    · exact .inr ⟨by simp, .inr rfl⟩
  | error thrown =>
    obtain ⟨_, -, ⟨call, rfl, hask⟩ | ⟨call, _, _, rfl, hask, -⟩ | ⟨_, _, _, rfl, -, -, rfl⟩⟩ :=
      attempt_error h
    · exact .inl ⟨call, _, rfl, hask⟩
    · exact .inl ⟨call, _, rfl, hask⟩
    · exact .inr ⟨by simp, .inr rfl⟩

theorem perform_eq (place : Place) (startedAt : Number) :
    live.perform setting header action place startedAt =
      match Policy.carryOut (surroundings setting) header setting.retry
        (undertaking setting header action live) live with
      | none => none
      | some (.error failure, after) => some (.error failure, after)
      | some (.ok attempted, after) =>
        some (.ok (after.conclude setting (.act header action) place startedAt attempted).1,
          (after.conclude setting (.act header action) place startedAt attempted).2) := rfl

/-- An action is carried out, and what comes of it is taken into the run. -/
theorem perform_cases {place : Place} {startedAt : Number} {result : Except Failure ActionEnd}
    (h : live.perform setting header action place startedAt = some (result, after)) :
    ∃ attempted middle,
      Policy.carryOut (surroundings setting) header setting.retry
        (undertaking setting header action live) live = some (.ok attempted, middle) ∧
      result = .ok (middle.conclude setting (.act header action) place startedAt attempted).1 ∧
      after = (middle.conclude setting (.act header action) place startedAt attempted).2 := by
  rw [perform_eq] at h
  split at h
  · simp at h
  · next hcarried =>
    obtain ⟨attempted, hok⟩ := Policy.carryOut_named
      (fun thrown hprepared ↦ by
        obtain ⟨_, _, fault, -, rfl⟩ := undertaking_prepared hprepared
        exact ⟨_, rfl⟩)
      (fun prepared w thrown after hattempt ↦ by
        obtain ⟨_, hthrown, -⟩ := attempt_error hattempt
        exact ⟨_, hthrown⟩) hcarried
    simp at hok
  · next attempted middle hcarried =>
    obtain ⟨rfl, rfl⟩ := Prod.mk.inj (Option.some.inj h)
    exact ⟨attempted, middle, hcarried, rfl, rfl⟩

end Live

end BrowserFlow
