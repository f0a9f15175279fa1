import BrowserFlow.CommandLine.Program
import Mathlib.Data.List.Count

/-!
The sessions of the program. What a performance does with a browser and with the
handler for interruptions is its lifetime, and there are four of them: none at
all, a launch that fails, a browser without a page, which is closed at once, and a
session, in which the program listens and behind which it is deaf again before
the browser is closed (`Program.run_lifetime`). Main statement: whatever the words
of the command line and whatever fails, a browser that was launched is closed
once and no other is closed, whoever listens for interruptions stops once, and for
a document that is not valid nothing is launched; and the program ends unless a
run does not (`Program.perform_closes`).
-/

set_option autoImplicit false
set_option relaxedAutoImplicit false

namespace BrowserFlow

variable {σ : Type}

namespace Deed

/-- Whether a deed launches a browser. -/
def isLaunching : Deed → Bool
  | .session (.launching _) => true
  | _ => false

/-- Whether a deed is about a browser or about interruptions. -/
def isOfSession : Deed → Bool
  | .session _ | .listening | .deaf => true
  | _ => false

theorem isOfSession_of_kind (deed : Deed) (h : deed.isLaunching = true ∨ deed.isClosing = true ∨
    deed.isListening = true ∨ deed.isDeaf = true) : deed.isOfSession = true := by
  cases deed with
  | session _ | listening | deaf => rfl
  | _ => simp [isLaunching, isClosing, isListening, isDeaf] at h

theorem filter_ofEvents (asked : Level) (events : List Event) :
    (ofEvents asked events).filter isOfSession = [] := by
  refine List.filter_eq_nil_iff.mpr fun deed hdeed ↦ ?_
  obtain ⟨event, -, hevent⟩ := List.mem_filterMap.mp hdeed
  cases event with
  | recorded time outcome =>
    rw [← Option.some.inj hevent]
    exact Bool.false_ne_true
  | logged entry =>
    obtain ⟨line, -, rfl⟩ := Option.map_eq_some_iff.mp hevent
    exact Bool.false_ne_true
  | _ => cases hevent

end Deed

/-- What is done with a browser and about interruptions when a session is asked for. -/
def Browser.lifetime (browser : Browser) (plan : SessionPlan) : List Deed :=
  match browser.launch, browser.newPage with
  | some _, _ => [.session (.launching plan)]
  | none, some _ => [.session (.launching plan), .session .openingPage, .session .closing]
  | none, none =>
    [.session (.launching plan), .session .openingPage, .listening, .deaf, .session .closing]

/-- Deeds with a browser that leave nothing open: at most one browser is launched; when it was, it
is closed once, and otherwise none is closed; and when somebody listens for interruptions, it is
once, and they stop once. -/
structure Browser.IsLeftClosed (browser : Browser) (deeds : List Deed) : Prop where
  launches : deeds.countP Deed.isLaunching ≤ 1
  closes : deeds.any Deed.isLaunching = true → browser.launch = none →
    deeds.countP Deed.isClosing = 1
  spares : (deeds.any Deed.isLaunching = true → browser.launch ≠ none) →
    deeds.countP Deed.isClosing = 0
  deafens : deeds.any Deed.isListening = true →
    deeds.countP Deed.isListening = 1 ∧ deeds.countP Deed.isDeaf = 1

namespace Browser

variable {browser : Browser} {deeds : List Deed}

theorem isLeftClosed_nil : browser.IsLeftClosed [] := by
  constructor <;> simp

theorem isLeftClosed_lifetime (browser : Browser) (plan : SessionPlan) :
    browser.IsLeftClosed (browser.lifetime plan) := by
  cases hlaunch : browser.launch with
  | some what =>
    constructor <;> simp [lifetime, hlaunch, Deed.isLaunching, Deed.isClosing, Deed.isListening,
      SessionEvent.isClosing]
  | none =>
    cases hpage : browser.newPage <;> constructor <;>
      simp [lifetime, hlaunch, hpage, List.countP_cons, Deed.isLaunching, Deed.isClosing,
        Deed.isListening, Deed.isDeaf, SessionEvent.isClosing]

/-- Only deeds about a browser or about interruptions count. -/
theorem IsLeftClosed.of_filter (h : browser.IsLeftClosed (deeds.filter Deed.isOfSession)) :
    browser.IsLeftClosed deeds := by
  have hcount : ∀ {kind : Deed → Bool}, (∀ deed, kind deed = true → deed.isOfSession = true) →
      (deeds.filter Deed.isOfSession).countP kind = deeds.countP kind := by
    intro kind hkind
    rw [List.countP_filter]
    refine List.countP_congr fun deed _ ↦ ?_
    simpa using hkind deed
  have hany : ∀ {kind : Deed → Bool}, (∀ deed, kind deed = true → deed.isOfSession = true) →
      (deeds.filter Deed.isOfSession).any kind = deeds.any kind := by
    intro kind hkind
    rw [Bool.eq_iff_iff, List.any_eq_true, List.any_eq_true]
    exact ⟨fun ⟨deed, hmem, hdeed⟩ ↦ ⟨deed, (List.mem_filter.mp hmem).1, hdeed⟩,
      fun ⟨deed, hmem, hdeed⟩ ↦ ⟨deed, List.mem_filter.mpr ⟨hmem, hkind deed hdeed⟩, hdeed⟩⟩
  have hkinds (deed : Deed) := deed.isOfSession_of_kind
  have hlaunching (deed : Deed) (h : deed.isLaunching = true) := hkinds deed (.inl h)
  have hclosing (deed : Deed) (h : deed.isClosing = true) := hkinds deed (.inr (.inl h))
  have hlistening (deed : Deed) (h : deed.isListening = true) :=
    hkinds deed (.inr (.inr (.inl h)))
  have hdeaf (deed : Deed) (h : deed.isDeaf = true) := hkinds deed (.inr (.inr (.inr h)))
  obtain ⟨hlaunches, hcloses, hspares, hdeafens⟩ := h
  rw [hcount hlaunching] at hlaunches
  rw [hany hlaunching, hcount hclosing] at hcloses hspares
  rw [hany hlistening, hcount hlistening, hcount hdeaf] at hdeafens
  exact ⟨hlaunches, hcloses, hspares, hdeafens⟩

end Browser

namespace Performance

/-- What is done with a browser and about interruptions, in order. -/
def lifetime (p : Performance σ) : List Deed := p.deeds.filter Deed.isOfSession

end Performance

namespace Program

variable {terminal : Terminal σ} {file : Text} {flags : RunSwitches} {turns : Nat} {idle : Live σ}
  {p : Performance σ}

theorem refuse_lifetime (failure : Failure) : (refuse terminal file failure).lifetime = [] := by
  unfold refuse
  split
  · simp [Performance.lifetime, complaints, Deed.isOfSession, List.filter_map, Function.comp_def]
  · rfl

theorem validate_lifetime : (validate terminal file).lifetime = [] := by
  unfold validate
  split
  · exact refuse_lifetime _
  · simp [Performance.lifetime, Deed.isOfSession]

theorem inSession_lifetime {setup : Setup} (h : inSession terminal setup turns idle = some p) :
    p.lifetime = [] := by
  unfold inSession at h
  split at h
  · rw [← Option.some.inj h]
    rfl
  · dsimp only at h
    split at h
    · cases h
    · rw [← Option.some.inj h]
      simp [Performance.lifetime, Setup.startLine, Deed.told, Deed.isOfSession,
        Deed.filter_ofEvents]
    · split at h
      all_goals
        rw [← Option.some.inj h]
        simp [Performance.lifetime, Setup.startLine, Setup.completeLine, Deed.told,
          Deed.isOfSession, Deed.filter_ofEvents]

theorem part_lifetime (parting : Parting) : (part terminal parting).lifetime = [] := by
  simp only [Performance.lifetime, part]
  split <;> rfl

theorem closed_lifetime (browser : Browser) (p : Performance σ) :
    (closed browser p).lifetime = .listening :: p.lifetime ++ [.deaf, .session .closing] := by
  simp [Performance.lifetime, closed, List.filter_cons, Deed.isOfSession]

/-- What is done with the browser before a session, and whether there is one. -/
theorem startSession_lifetime (browser : Browser) (plan : SessionPlan) :
    browser.lifetime plan = (browser.startSession plan).2.map Deed.session ++
      if (browser.startSession plan).1.isOk then [.listening, .deaf, .session .closing] else [] := by
  unfold Browser.lifetime Browser.startSession
  cases browser.launch with
  | some what => rfl
  | none => cases browser.newPage <;> rfl

theorem filter_map_session (events : List SessionEvent) :
    (events.map Deed.session).filter Deed.isOfSession = events.map Deed.session :=
  List.filter_eq_self.mpr fun deed hdeed ↦ by
    obtain ⟨event, -, rfl⟩ := List.mem_map.mp hdeed
    rfl

/-- The lifetime of a run: nothing is launched for a document that does not load, and where a
session is asked for it is one of a browser. -/
theorem run_lifetime (h : run terminal file flags turns idle = some p) :
    p.lifetime = [] ∨ ∃ validated plan, Workflow.load file terminal.disk = .ok validated ∧
      p.lifetime = terminal.browser.lifetime plan := by
  unfold run at h
  split at h
  · rw [← Option.some.inj h]
    exact .inl rfl
  · next configuration _ =>
    split at h
    · rw [← Option.some.inj h]
      exact .inl (refuse_lifetime _)
    · next validated hload =>
      let setup : Setup := ⟨configuration, flags, terminal.runId, validated.workflow⟩
      refine .inr ⟨validated, setup.session, hload, ?_⟩
      rw [startSession_lifetime]
      dsimp only at h
      cases hopened : (terminal.browser.startSession setup.session).1 with
      | error what =>
        rw [hopened] at h
        rw [← Option.some.inj h]
        exact (filter_map_session _).trans (List.append_nil _).symm
      | ok _ =>
        rw [hopened] at h
        obtain ⟨inner, hinner, rfl⟩ := Option.map_eq_some_iff.mp h
        have hclosed := closed_lifetime terminal.browser inner
        rw [inSession_lifetime hinner] at hclosed
        rw [Performance.lifetime] at hclosed ⊢
        rw [List.filter_append, filter_map_session, hclosed]
        rfl

/-- A run of the program comes to an end unless the run of its workflow does not. -/
theorem run_eq_none (h : run terminal file flags turns idle = none) :
    ∃ configuration validated company,
      Configuration.read terminal.environment = .ok configuration ∧
      Workflow.load file terminal.disk = .ok validated ∧
      let setup : Setup := ⟨configuration, flags, terminal.runId, validated.workflow⟩
      terminal.company setup.storageDir = .ok company ∧
      Workflow.run company.host setup.options (.ofValue setup.workflow.toValue) turns idle =
        none := by
  unfold run at h
  split at h
  · cases h
  · next configuration hread =>
    split at h
    · cases h
    · next validated hload =>
      dsimp only at h
      split at h
      · cases h
      · have hsession := Option.map_eq_none_iff.mp h
        unfold inSession at hsession
        split at hsession
        · cases hsession
        · next company hcompany =>
          dsimp only at hsession
          split at hsession
          · next hnone => exact ⟨configuration, validated, company, hread, hload, hcompany, hnone⟩
          · cases hsession
          · split at hsession <;> cases hsession

/-- Whatever the words of the command line are and whatever fails, the program leaves no browser
open and closes none twice, and stops to listen for interruptions as often as it begins to. Nothing
is launched where there is no valid document to be run, and the program ends unless the run of a
workflow does not. -/
theorem perform_closes (terminal : Terminal σ) (words : List Text) (turns : Nat) (idle : Live σ) :
    (∀ p, perform terminal words turns idle = some p →
      terminal.browser.IsLeftClosed p.deeds ∧
      ((∀ file flags validated, Request.ofWords words = .ok (.run file flags) →
        Workflow.load file terminal.disk ≠ .ok validated) → p.lifetime = [])) ∧
    (perform terminal words turns idle = none → ∃ file flags configuration validated company,
      Request.ofWords words = .ok (.run file flags) ∧
      Configuration.read terminal.environment = .ok configuration ∧
      Workflow.load file terminal.disk = .ok validated ∧
      let setup : Setup := ⟨configuration, flags, terminal.runId, validated.workflow⟩
      terminal.company setup.storageDir = .ok company ∧
      Workflow.run company.host setup.options (.ofValue setup.workflow.toValue) turns idle =
        none) := by
  have hclosed : ∀ {p : Performance σ},
      p.lifetime = [] ∨ (∃ plan, p.lifetime = terminal.browser.lifetime plan) →
      terminal.browser.IsLeftClosed p.deeds := by
    intro p hlifetime
    refine .of_filter (?_ : terminal.browser.IsLeftClosed p.lifetime)
    rcases hlifetime with hnone | ⟨plan, hplan⟩
    · exact hnone ▸ Browser.isLeftClosed_nil
    · exact hplan ▸ terminal.browser.isLeftClosed_lifetime plan
  constructor
  · intro p hp
    unfold perform at hp
    split at hp
    · obtain rfl := Option.some.inj hp
      exact ⟨hclosed (.inl (part_lifetime _)), fun _ ↦ part_lifetime _⟩
    · obtain rfl := Option.some.inj hp
      exact ⟨hclosed (.inl validate_lifetime), fun _ ↦ validate_lifetime⟩
    · next file flags hwords =>
      rcases run_lifetime hp with hnone | ⟨validated, plan, hload, hplan⟩
      · exact ⟨hclosed (.inl hnone), fun _ ↦ hnone⟩
      · exact ⟨hclosed (.inr ⟨plan, hplan⟩),
          fun hinvalid ↦ absurd hload (hinvalid file flags validated hwords)⟩
  · intro h
    unfold perform at h
    split at h
    · cases h
    · cases h
    · next file flags hwords =>
      obtain ⟨configuration, validated, company, hrun⟩ := run_eq_none h
      exact ⟨file, flags, configuration, validated, company, hwords, hrun⟩

/-- A terminal at which a document can be read but nobody is found to answer the requests of its
run, and at which closing a browser fails. -/
def roomless : Terminal Unit where
  environment := []
  disk := .ofFiles ["home"] [("click.json", "\x7b\"name\":\"c\",\"version\":\"1\",\"steps\":[" ++
    "\x7b\"name\":\"go\",\"action\":\"click\",\"selector\":\"#a\"\x7d]\x7d")]
  browser := ⟨none, none, some (.text "gone")⟩
  company := fun _ ↦ .error (.text "no room")
  runId := "morning"

/-- The browser is closed once although there was no run, and although closing it fails. -/
theorem perform_closes_roomless :
    ∃ p, perform roomless ["run", "click.json"] 5 (Workflow.idle 0 .quiet ()) = some p ∧
      p.deeds.any Deed.isLaunching = true ∧ p.deeds.any Deed.isListening = true ∧
      p.deeds.countP Deed.isClosing = 1 ∧
      p.deeds.countP Deed.isListening = 1 ∧ p.deeds.countP Deed.isDeaf = 1 := by
  have hshown : (perform roomless ["run", "click.json"] 5 (Workflow.idle 0 .quiet ())).map
      (fun p ↦ (p.deeds.any Deed.isLaunching, p.deeds.any Deed.isListening)) =
        some (true, true) := by decide +kernel
  obtain ⟨p, hp, hkinds⟩ := Option.map_eq_some_iff.mp hshown
  obtain ⟨hlaunched, hlistened⟩ := Prod.mk.inj hkinds
  have hclosed := ((perform_closes roomless ["run", "click.json"] 5
    (Workflow.idle 0 .quiet ())).1 p hp).1
  exact ⟨p, hp, hlaunched, hlistened, hclosed.closes hlaunched rfl, hclosed.deafens hlistened⟩

end Program

end BrowserFlow
