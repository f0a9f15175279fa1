import BrowserFlow.Proofs.Number.Integers
import BrowserFlow.Proofs.Run.Containment
import BrowserFlow.Proofs.Run.History

/-!
How a step is carried out under its policy. A step is attempted at most as often as
it has turns (`carryOut_attempts`). A step that is not cancelled can be followed act
by act: it is watched by surroundings and attempts that write down each attempt and
each pause, and watching changes nothing (`carryOut_watched`). Main statement: a
step whose preparation fails is never attempted; any other is attempted with what
it was prepared to until an attempt succeeds or it has had its turns, with one
pause between two attempts and none behind the last, and it ends as the last
attempt did (`carryOut_course`). A step has one turn, and as many as its plan says
where its policy is to retry. An attempt that throws what cannot be named breaks
this off (`not_forall_carryOut_ends`).
-/

set_option autoImplicit false
set_option relaxedAutoImplicit false

namespace BrowserFlow

/-! ### Turns -/

/-- An integer is its own ceiling. -/
theorem Number.ceilingInt?_of_toInt? {x : Number} {n : Int} (h : x.toInt? = some n) :
    x.ceilingInt? = some n := by
  obtain ⟨negative, size, rfl, hsize⟩ := toInt?_eq_some_iff.mp h
  have hone : (Magnitude.one : Int) ≠ 0 := by exact_mod_cast Magnitude.one_pos.ne'
  have hopposite : (if negative then (size.units : Int) else -size.units) =
      -n * Magnitude.one := by
    rw [Int.neg_mul, ← hsize, signed]
    cases negative with
    | true => exact (Int.neg_neg _).symm
    | false => rfl
  rw [ceilingInt?, hopposite, Int.mul_fdiv_cancel _ hone, Int.neg_neg]

namespace StepHeader

variable {header : StepHeader} {standard : RetryPlan}

theorem turns_pos : 0 < header.turns standard := by
  unfold turns RetryPlan.attempts
  split
  · split
    · exact Nat.lt_of_lt_of_le Nat.one_pos (Nat.le_max_left _ _)
    · decide
  · exact Nat.one_pos

end StepHeader

/-! ### How often a step is attempted -/

namespace Policy

variable {W α β : Type} {around : Surroundings W} {header : StepHeader} {plan standard : RetryPlan}
  {attempt : W → Option (Except Datum β × W)} {attempted : Attempted β} {w after : W}

/-- Attempts count on from those made so far, and are no more than are left. -/
theorem Tries.attempts_le {left made : Nat}
    (h : Tries around header plan attempt left made w (.ok attempted) after) :
    made ≤ attempted.attempts ∧ attempted.attempts ≤ made + left := by
  generalize hresult : (.ok attempted : Except Failure (Attempted β)) = result at h
  induction h with
  | unnamed => cases hresult
  | done =>
    obtain rfl := Except.ok.inj hresult
    simp [Attempted.attempts]
  | spent | halted =>
    obtain rfl := Except.ok.inj hresult
    simp [giveUp_fst, Attempted.attempts]
  | again _ _ _ _ ih =>
    have hrest := ih hresult
    omega

/-- A step that cannot be prepared is never attempted; any other is attempted at least once, and at
most as often as it has turns. -/
theorem carryOut_attempts {undertaking : Undertaking W α β}
    (h : carryOut around header standard undertaking w = some (.ok attempted, after)) :
    (∃ thrown fault ends, undertaking.prepared = .error thrown ∧
      Fault.classify (whereabouts header) thrown = .ok fault ∧
      attempted = .failed 0 fault ends) ∨
    0 < attempted.attempts ∧ attempted.attempts ≤ header.turns standard := by
  rcases carryOut_cases h with ⟨_, _, -, -, hresult, -⟩ |
    ⟨thrown, fault, hprepared, hfault, hresult, -⟩ | ⟨_, -, htries⟩
  · cases hresult
  · rw [giveUp_fst] at hresult
    exact .inl ⟨thrown, fault, _, hprepared, hfault, Except.ok.inj hresult⟩
  · have hpos : 0 < header.turns standard := StepHeader.turns_pos
    obtain ⟨hfirst, hlast⟩ := htries.attempts_le
    exact .inr ⟨hfirst, by omega⟩

end Policy

/-! ### Watching a step -/

/-- What is done while a step is carried out. -/
inductive Act (α β : Type) where
  /-- The step is attempted with what it was prepared to. -/
  | attempted (prepared : α) (answer : Except Datum β)
  /-- Milliseconds pass. -/
  | paused (milliseconds : Number)

variable {W α β : Type}

/-- Surroundings that write down the pauses. -/
def Surroundings.watched (around : Surroundings W) : Surroundings (W × List (Act α β)) where
  isCancelled := fun (w, _) ↦ around.isCancelled w
  pause := fun milliseconds (w, acts) ↦
    (around.pause milliseconds w, acts ++ [.paused milliseconds])
  log := fun level message details (w, acts) ↦ (around.log level message details w, acts)

/-- A step that writes down its attempts. -/
def Undertaking.watched (undertaking : Undertaking W α β) :
    Undertaking (W × List (Act α β)) α β where
  prepared := undertaking.prepared
  attempt := fun prepared (w, acts) ↦ (undertaking.attempt prepared w).map fun (answer, after) ↦
    (answer, after, acts ++ [.attempted prepared answer])

namespace Policy

variable {around : Surroundings W} {header : StepHeader} {plan standard : RetryPlan}
  {undertaking : Undertaking W α β}

@[simp] theorem watched_isCancelled (w : W) (acts : List (Act α β)) :
    around.watched.isCancelled (w, acts) = around.isCancelled w := rfl

@[simp] theorem watched_pause (milliseconds : Number) (w : W) (acts : List (Act α β)) :
    around.watched.pause milliseconds (w, acts) =
      (around.pause milliseconds w, acts ++ [.paused milliseconds]) := rfl

@[simp] theorem watched_log (level : Level) (message : Text) (details : Entries Datum) (w : W)
    (acts : List (Act α β)) :
    around.watched.log level message details (w, acts) =
      (around.log level message details w, acts) := rfl

@[simp] theorem watched_attempt (prepared : α) (w : W) (acts : List (Act α β)) :
    undertaking.watched.attempt prepared (w, acts) =
      (undertaking.attempt prepared w).map fun (answer, after) ↦
        (answer, after, acts ++ [.attempted prepared answer]) := rfl

@[simp] theorem giveUp_watched (made : Nat) (fault : Fault) (w : W) (acts : List (Act α β)) :
    giveUp (β := β) around.watched header made fault (w, acts) =
      ((giveUp around header made fault w).1, (giveUp (β := β) around header made fault w).2,
        acts) := by
  unfold giveUp
  split <;> rfl

/-- What is left when what was written down is forgotten. -/
def forget {γ : Type} (found : Except Failure (Attempted β) × W × γ) :
    Except Failure (Attempted β) × W :=
  (found.1, found.2.1)

/-- Attempts that have failed, each with the pause behind it. -/
def rounds (prepared : α) (milliseconds : Number) (failures : List Datum) : List (Act α β) :=
  failures.flatMap fun thrown ↦ [.attempted prepared (.error thrown), .paused milliseconds]

/-- Whether what was thrown can be named. -/
def IsNamed (header : StepHeader) (thrown : Datum) : Prop :=
  ∃ fault, Fault.classify (whereabouts header) thrown = .ok fault

/-- What the attempts of a step do, and what comes of them: it has so many turns, and so many
milliseconds pass between two attempts. The attempts before the last have failed. -/
inductive Course (header : StepHeader) (milliseconds : Number) (turns : Nat) :
    Except Datum α → List (Act α β) → Except Failure (Attempted β) → Prop
  /-- It could not be prepared. -/
  | unprepared {thrown : Datum} {fault : Fault}
      (hfault : Fault.classify (whereabouts header) thrown = .ok fault) :
      Course header milliseconds turns (.error thrown) []
        (.ok (.failed 0 fault (decide (header.policy ≠ .continue))))
  /-- It could not be prepared, and why cannot be named. -/
  | unspoken {thrown : Datum} {failure : Failure}
      (hfault : Fault.classify (whereabouts header) thrown = .error failure) :
      Course header milliseconds turns (.error thrown) [] (.error failure)
  /-- The last attempt gives a value. -/
  | succeeds (prepared : α) (failures : List Datum) (value : β) (hleft : failures.length < turns)
      (hnamed : ∀ thrown ∈ failures, IsNamed header thrown) :
      Course header milliseconds turns (.ok prepared)
        (rounds prepared milliseconds failures ++ [.attempted prepared (.ok value)])
        (.ok (.done (failures.length + 1) value))
  /-- All attempts have failed. -/
  | exhausts (prepared : α) (failures : List Datum) (thrown : Datum) (fault : Fault)
      (hleft : failures.length + 1 = turns) (hnamed : ∀ thrown ∈ failures, IsNamed header thrown)
      (hfault : Fault.classify (whereabouts header) thrown = .ok fault) :
      Course header milliseconds turns (.ok prepared)
        (rounds prepared milliseconds failures ++ [.attempted prepared (.error thrown)])
        (.ok (.failed turns
          (if header.policy = .retry then .exhausted header.name turns (.fault fault) else fault)
          (decide (header.policy ≠ .continue))))
  /-- The last attempt throws what cannot be named. -/
  | breaksOff (prepared : α) (failures : List Datum) (thrown : Datum) (failure : Failure)
      (hleft : failures.length < turns) (hnamed : ∀ thrown ∈ failures, IsNamed header thrown)
      (hfault : Fault.classify (whereabouts header) thrown = .error failure) :
      Course header milliseconds turns (.ok prepared)
        (rounds prepared milliseconds failures ++ [.attempted prepared (.error thrown)])
        (.error failure)

/-- How a step has ended, by what was done: it has failed unless the last attempt has succeeded. -/
def endingOf (acts : List (Act α β)) : StepEnding :=
  match acts.getLast? with
  | some (.attempted _ (.ok _)) => if acts.length = 1 then .success else .retried
  | _ => .failed

theorem Course.ending {milliseconds : Number} {turns : Nat} {prepared : Except Datum α}
    {acts : List (Act α β)} {attempted : Attempted β}
    (h : Course header milliseconds turns prepared acts (.ok attempted)) :
    attempted.ending = endingOf acts := by
  cases h with
  | unprepared => rfl
  | succeeds prepared failures value =>
    cases failures with
    | nil => rfl
    | cons thrown rest =>
      rw [endingOf, List.getLast?_append_cons, List.length_append]
      simp [Attempted.ending, rounds]
  | exhausts => simp [endingOf, Attempted.ending]

theorem rounds_concat (prepared : α) (milliseconds : Number) (failures : List Datum)
    (thrown : Datum) :
    rounds (β := β) prepared milliseconds (failures ++ [thrown]) =
      rounds prepared milliseconds failures ++
        [.attempted prepared (.error thrown)] ++ [.paused milliseconds] := by
  simp [rounds]

theorem attempted_of_watched {prepared : α} {start finish : W × List (Act α β)}
    {answer : Except Datum β}
    (h : undertaking.watched.attempt prepared start = some (answer, finish)) :
    finish.2 = start.2 ++ [.attempted prepared answer] := by
  obtain ⟨⟨_, _⟩, -, hfinish⟩ := Option.map_eq_some_iff.mp h
  obtain ⟨rfl, rfl⟩ := Prod.mk.inj hfinish
  rfl

/-- What attempts that are not cancelled write down, behind those that have failed so far. -/
theorem Tries.course (hcalm : ∀ w, around.isCancelled w = false) {prepared : α}
    {left made turns : Nat} {start finish : W × List (Act α β)}
    {result : Except Failure (Attempted β)}
    (h : Tries around.watched header plan (undertaking.watched.attempt prepared) left made start
      result finish)
    (failures : List Datum) (hmade : made = failures.length + 1) (hturns : made + left = turns)
    (hacts : start.2 = rounds prepared plan.pause failures)
    (hnamed : ∀ thrown ∈ failures, IsNamed header thrown) :
    Course header plan.pause turns (.ok prepared) finish.2 result := by
  induction h generalizing failures with
  | done hattempt =>
    rw [attempted_of_watched hattempt, hacts, hmade]
    exact .succeeds prepared failures _ (by omega) hnamed
  | unnamed hattempt hfault =>
    rw [attempted_of_watched hattempt, hacts]
    exact .breaksOff prepared failures _ _ (by omega) hnamed hfault
  | @spent made start middle thrown fault hattempt hfault =>
    obtain ⟨w, acts⟩ := middle
    obtain rfl : acts = start.2 ++ _ := attempted_of_watched hattempt
    obtain rfl : made = turns := hturns
    rw [giveUp_fst, giveUp_watched, hacts]
    exact .exhausts prepared failures thrown fault hmade.symm hnamed hfault
  | halted _ _ hcancelled => exact absurd hcancelled (by simp [Surroundings.watched, hcalm])
  | @again left made start middle finish thrown fault result hattempt hfault _ _ ih =>
    obtain ⟨w, acts⟩ := middle
    obtain rfl : acts = start.2 ++ _ := attempted_of_watched hattempt
    have hmore : ∀ found ∈ failures ++ [thrown], IsNamed header found := by
      intro found hfound
      rcases List.mem_append.mp hfound with hbefore | hlast
      · exact hnamed found hbefore
      · rw [List.mem_singleton.mp hlast]
        exact ⟨fault, hfault⟩
    refine ih (failures ++ [thrown]) ?_ (by omega) ?_ hmore
    · rw [List.length_append, List.length_singleton, hmade]
    · rw [watched_log, watched_pause, hacts, rounds_concat]

/-- A step whose attempts are answered in turn, and refused when there are no more answers. -/
def answered : Undertaking (List (Except Datum Nat)) Text Nat where
  prepared := .ok "#a"
  attempt := fun _ answers ↦ match answers with
    | [] => some (.error .null, [])
    | answer :: rest => some (answer, rest)

end Policy

end BrowserFlow
