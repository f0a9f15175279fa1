import BrowserFlow.CommandLine.Configuration
import BrowserFlow.Proofs.Document.Rereading
import BrowserFlow.Proofs.Fault.Thrown
import BrowserFlow.Proofs.Number.Products
import BrowserFlow.Run.Policy

/-!
The settings of the environment against the form of a document. An environment
that is accepted says the numbers that the texts of its variables denote, or the
usual ones (`Configuration.read_numbers`), each in its own range. Main statement:
the retry plan that it says is one that a document may hold, and the time to wait
for an element is one that a step may have, except that a document must keep below
the longest delay of a timer and the environment need not; a plan that keeps below
it makes no longer pause than timers honour (`Configuration.read_fits`).
-/

set_option autoImplicit false
set_option relaxedAutoImplicit false

namespace BrowserFlow

/-- A delay that a document may hold makes a pause that timers honour. -/
theorem RetryPlan.pause_le {plan : RetryPlan} (hleast : Number.le 0 plan.delaySeconds = true)
    (hlongest : Number.le plan.delaySeconds Document.longestDelay = true) :
    Number.le plan.pause 2147483647 = true :=
  @Number.mul_le_ofNat plan.delaySeconds 2147483 1000 2147483647 (by decide) (by decide)
    (by decide) (by decide) hleast hlongest

theorem Checked.require_ok {α : Type} (test : α → Bool) (flaw : Flaw) (a : α) :
    require test flaw (ok a) = if test a then ok a else ⟨some a, [⟨[], flaw⟩]⟩ := rfl

namespace Document

open Checked

/-- What the form of a retry plan finds wrong with a plan whose numbers are in their ranges: at most
a delay that no timer honours. -/
theorem retryPlan_toValue {plan : RetryPlan} (hmost : plan.maxAttempts ≠ .nan)
    (hinteger : plan.maxAttempts.isInteger = true) (hone : Number.le 1 plan.maxAttempts = true)
    (hdelay : plan.delaySeconds ≠ .nan) (hleast : Number.le 0 plan.delaySeconds = true) :
    retryPlan (.ofValue plan.toValue) =
      if Number.le plan.delaySeconds longestDelay then ok plan
      else ⟨some plan, [⟨[.key "delay_seconds"], .above longestDelay⟩]⟩ := by
  have horder : Entries.KeysInOrder ["max_attempts", "delay_seconds"] := by decide
  have hfirst : (Datum.ofValue plan.toValue).member "max_attempts" = .number plan.maxAttempts :=
    Datum.member_ofFields (by rfl) horder (.head _)
  have hsecond : (Datum.ofValue plan.toValue).member "delay_seconds" = .number plan.delaySeconds :=
    Datum.member_ofFields (by rfl) horder (.tail _ (.head _))
  rw [retryPlan, field, field, hfirst, hsecond, number_eq_ok.mpr ⟨rfl, hmost⟩,
    number_eq_ok.mpr ⟨rfl, hdelay⟩,
    require_ok, require_ok, if_pos hinteger, if_pos hleast, require_ok, if_pos hone, require_ok]
  refine (form_ofFields (by rfl) horder _).trans ?_
  split <;> rfl

/-- What is found wrong with a time above zero: at most that no timer honours it. -/
theorem timeout_number {x : Number} (hx : x ≠ .nan) (hpositive : Number.lt 0 x = true) :
    timeout (.number x) =
      if Number.le x longestDelay then ok x else ⟨some x, [⟨[], .above longestDelay⟩]⟩ := by
  rw [timeout, number_eq_ok.mpr ⟨rfl, hx⟩, require_ok, if_pos hpositive, require_ok]

end Document

namespace Configuration

open Checked

variable {environment : Entries (Option Text)} {configuration : Configuration}

/-! ### Settings without issues -/

theorem setting_eq_ok {α : Type} {said : Entries Text} {name : Text} {usual a : α}
    {read : Text → Checked α} :
    setting said name usual read = ok a ↔
      (Entries.find? said name = none ∧ a = usual) ∨
        ∃ value, Entries.find? said name = some value ∧ read value = ok a := by
  unfold setting
  cases Entries.find? said name with
  | none => simp [ok_inj, eq_comm]
  | some value => simp [within_eq_ok]

theorem read_eq_ok :
    read environment = .ok configuration ↔ checked (present environment) = ok configuration := by
  rw [eq_ok_iff, read]
  cases (checked (present environment)).value? with
  | none => simp
  | some found => cases (checked (present environment)).issues <;> simp

theorem numeral_eq_ok {value : Text} {x : Number} :
    numeral value = ok x ↔ (Number.ofText? value).getD .nan = x ∧ x ≠ .nan := by
  rw [numeral, Document.number_eq_ok, Datum.number.injEq]

theorem positive_eq_ok {value : Text} {x : Number} :
    positive value = ok x ↔ numeral value = ok x ∧ Number.lt 0 x = true := require_eq_ok

theorem attempts_eq_ok {value : Text} {x : Number} :
    attempts value = ok x ↔ numeral value = ok x ∧ x.isInteger = true ∧ Number.le 1 x = true := by
  rw [attempts, require_eq_ok, require_eq_ok, and_assoc]

theorem delay_eq_ok {value : Text} {x : Number} :
    delay value = ok x ↔ numeral value = ok x ∧ Number.le 0 x = true := require_eq_ok

/-- The number that a variable says, or the usual one. -/
def numberOf (environment : Entries (Option Text)) (name : Text) (usual : Number) : Number :=
  match Entries.find? (present environment) name with
  | some value => (Number.ofText? value).getD .nan
  | none => usual

/-- A number that was set is the one that the variable says, and it is in its range when the usual
one is. -/
theorem number_of_setting (range : Number → Prop) {name : Text} {usual x : Number}
    {read : Text → Checked Number}
    (hread : ∀ value x, read value = ok x ↔ numeral value = ok x ∧ range x)
    (husual : usual ≠ .nan ∧ range usual)
    (h : setting (present environment) name usual read = ok x) :
    x = numberOf environment name usual ∧ x ≠ .nan ∧ range x := by
  rcases setting_eq_ok.mp h with ⟨hfound, rfl⟩ | ⟨value, hfound, hvalue⟩
  · exact ⟨by rw [numberOf, hfound], husual⟩
  · obtain ⟨hnumeral, hrange⟩ := (hread value x).mp hvalue
    obtain ⟨hdenoted, hx⟩ := numeral_eq_ok.mp hnumeral
    exact ⟨by rw [numberOf, hfound]; exact hdenoted.symm, hx, hrange⟩

/-- The numbers of an accepted environment are those that its variables say, each in its range. -/
theorem read_numbers (h : read environment = .ok configuration) :
    (configuration.waitForTimeout = numberOf environment "STEPWISE_WAIT_FOR_TIMEOUT" 30 ∧
      configuration.waitForTimeout ≠ .nan ∧ Number.lt 0 configuration.waitForTimeout = true) ∧
    (configuration.retry.maxAttempts = numberOf environment "STEPWISE_RETRY_ATTEMPTS" 3 ∧
      configuration.retry.maxAttempts ≠ .nan ∧
        configuration.retry.maxAttempts.isInteger = true ∧
          Number.le 1 configuration.retry.maxAttempts = true) ∧
    (configuration.retry.delaySeconds = numberOf environment "STEPWISE_RETRY_DELAY" 1 ∧
      configuration.retry.delaySeconds ≠ .nan ∧
        Number.le 0 configuration.retry.delaySeconds = true) := by
  have hchecked := read_eq_ok.mp h
  simp only [checked, seq_eq_ok, map_eq_ok] at hchecked
  obtain ⟨_, pause, ⟨_, most, ⟨_, _, ⟨_, seconds, ⟨_, _, ⟨_, _, ⟨_, _, ⟨_, -, rfl⟩, -, rfl⟩,
    -, rfl⟩, -, rfl⟩, hseconds, rfl⟩, -, rfl⟩, hmost, rfl⟩, hpause, rfl⟩ := hchecked
  have hwait := number_of_setting (fun x ↦ Number.lt 0 x = true) (fun _ _ ↦ positive_eq_ok)
    ⟨by decide +kernel, by decide +kernel⟩ hseconds
  have hattempts := number_of_setting (fun x ↦ x.isInteger = true ∧ Number.le 1 x = true)
    (fun _ _ ↦ attempts_eq_ok) ⟨by decide +kernel, by decide +kernel⟩ hmost
  have hdelay := number_of_setting (fun x ↦ Number.le 0 x = true) (fun _ _ ↦ delay_eq_ok)
    ⟨by decide +kernel, by decide +kernel⟩ hpause
  exact ⟨hwait, hattempts, hdelay⟩

/-- The settings of an accepted environment against the form of a document. They are the numbers
that the variables say. A document may hold the retry plan, and a step may have the time to wait as
its own, but for one issue each: seconds beyond the longest delay of a timer, which are not refused
here. Where the delay keeps below it, the pause between two attempts is one that timers honour, at
most 2147483647 milliseconds. -/
theorem read_fits (h : read environment = .ok configuration) :
    let most := numberOf environment "STEPWISE_RETRY_ATTEMPTS" 3
    let delay := numberOf environment "STEPWISE_RETRY_DELAY" 1
    let seconds := numberOf environment "STEPWISE_WAIT_FOR_TIMEOUT" 30
    configuration.retry = ⟨most, delay⟩ ∧ configuration.waitForTimeout = seconds ∧
      Document.retryPlan (.ofValue configuration.retry.toValue) =
        (if Number.le delay Document.longestDelay then ok configuration.retry
        else ⟨some configuration.retry,
          [⟨[.key "delay_seconds"], .above Document.longestDelay⟩]⟩) ∧
      Document.timeout (.number configuration.waitForTimeout) =
        (if Number.le seconds Document.longestDelay then ok configuration.waitForTimeout
        else ⟨some configuration.waitForTimeout, [⟨[], .above Document.longestDelay⟩]⟩) ∧
      (Number.le delay Document.longestDelay = true →
        Number.le configuration.retry.pause 2147483647 = true) := by
  obtain ⟨⟨hseconds, hwait, hpositive⟩, ⟨hmost, hattempts, hinteger, hone⟩,
    ⟨hdelay, hpause, hleast⟩⟩ := read_numbers h
  intro most delay seconds
  change _ = seconds at hseconds
  change _ = most at hmost
  change _ = delay at hdelay
  have hretry : configuration.retry = ⟨most, delay⟩ := by rw [← hmost, ← hdelay]
  refine ⟨hretry, hseconds, ?_, ?_, fun hlongest ↦ ?_⟩
  · rw [← hdelay]
    exact Document.retryPlan_toValue hattempts hinteger hone hpause hleast
  · rw [← hseconds]
    exact Document.timeout_number hwait hpositive
  · rw [← hdelay] at hlongest
    exact RetryPlan.pause_le hleast hlongest

/-- Ten attempts with pauses of two and a half thousand seconds, written with a power of ten, and a
blank time to wait. -/
def patient : Entries (Option Text) :=
  [("STEPWISE_RETRY_ATTEMPTS", some " 10 "), ("STEPWISE_RETRY_DELAY", some "2.5e3"),
    ("STEPWISE_WAIT_FOR_TIMEOUT", some " ")]

theorem read_fits_patient :
    ∃ configuration, read patient = .ok configuration ∧ configuration.retry = ⟨10, 2500⟩ ∧
      Document.retryPlan (.ofValue configuration.retry.toValue) = ok configuration.retry ∧
      Document.timeout (.number configuration.waitForTimeout) = ok configuration.waitForTimeout ∧
      Number.le configuration.retry.pause 2147483647 = true := by
  obtain ⟨configuration, hread⟩ : ∃ configuration, read patient = .ok configuration :=
    Except.eq_ok_of_isOk (by decide +kernel)
  obtain ⟨hretry, -, hplan, htimeout, hpause⟩ := read_fits hread
  have hdelay : Number.le (numberOf patient "STEPWISE_RETRY_DELAY" 1) Document.longestDelay =
      true := by decide +kernel
  have hseconds : Number.le (numberOf patient "STEPWISE_WAIT_FOR_TIMEOUT" 30)
      Document.longestDelay = true := by decide +kernel
  have hnumbers : (⟨numberOf patient "STEPWISE_RETRY_ATTEMPTS" 3,
      numberOf patient "STEPWISE_RETRY_DELAY" 1⟩ : RetryPlan) = ⟨10, 2500⟩ :=
    congrArg₂ RetryPlan.mk (by decide +kernel) (by decide +kernel)
  refine ⟨configuration, hread, hretry.trans hnumbers, ?_, ?_, hpause hdelay⟩
  · rw [hplan, if_pos hdelay]
  · rw [htimeout, if_pos hseconds]

/-- A delay beyond the longest one that timers honour is accepted from the environment, and no
document may hold it. -/
theorem not_forall_read_fits :
    ¬ ∀ (environment : Entries (Option Text)) (configuration : Configuration),
      read environment = .ok configuration →
        Document.retryPlan (.ofValue configuration.retry.toValue) = ok configuration.retry ∧
        Document.timeout (.number configuration.waitForTimeout) =
          ok configuration.waitForTimeout := by
  intro h
  have hrefused : ((read [("STEPWISE_RETRY_DELAY", some "2147484")]).toOption.any
      fun found ↦ !(Document.retryPlan (.ofValue found.retry.toValue)).issues.isEmpty) = true := by
    decide +kernel
  obtain ⟨configuration, hfound, hissues⟩ := (Option.any_eq_true _ _).mp hrefused
  have hread := Except.eq_ok_of_toOption hfound
  rw [(h _ configuration hread).1] at hissues
  cases hissues

end Configuration

end BrowserFlow
