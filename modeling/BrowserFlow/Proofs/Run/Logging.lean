import BrowserFlow.Proofs.Document.Written
import BrowserFlow.Proofs.Run.Deeds

/-!
Who the entries of the log are of. What a run writes about itself names the run
and its workflow, and nothing that it writes beside takes their places
(`LogEntry.OfRun.names`). What carries an action out under its policy is older
than the run and writes on its own account: its entries about attempts name
neither (`LogEntry.OfAttempts.isNameless`), as those of the host. Main statement:
each entry of a run is one of these (`Workflow.run_logs`); the entries of a run
do not all name it (`Workflow.not_forall_run_logs`).
-/

set_option autoImplicit false
set_option relaxedAutoImplicit false

namespace BrowserFlow

/-! ### What entries show -/

namespace LogEntry

/-- An entry that names a run and its workflow. -/
structure Names (runId workflow : Text) (entry : LogEntry) : Prop where
  runId : entry.payload.member "runId" = .text runId
  workflow : entry.payload.member "workflow" = .text workflow

/-- An entry that names no run and no workflow. -/
def IsNameless (entry : LogEntry) : Prop := ∀ key ∈ runKeys, entry.payload.member key = .absent

/-- An entry that a run writes about itself. -/
structure OfRun (bindings : Entries Datum) (entry : LogEntry) : Prop where
  bindings : entry.bindings = bindings
  details : ∀ detail ∈ entry.details, detail.1 ∉ runKeys

/-- An entry about the attempts at an action of some steps, whose policy asks for it. -/
inductive OfAttempts (standard : RetryPlan) (steps : List Step) : LogEntry → Prop
  /-- An attempt has failed, and another one follows. -/
  | retried {place : Place} {header : StepHeader} {action : Action}
      (hstep : Step.stepAt? steps place = some (.act header action))
      (hpolicy : header.policy = .retry) (time : Number) (made : Nat) (fault : Fault) :
      OfAttempts standard steps ⟨time, .warn, "Step attempt failed, retrying", [],
        Policy.retriedDetails header.name (header.plan standard) made fault⟩
  /-- The action has failed, and the run goes on. -/
  | tolerated {place : Place} {header : StepHeader} {action : Action}
      (hstep : Step.stepAt? steps place = some (.act header action))
      (hpolicy : header.policy = .continue) (time : Number) (made : Nat) (fault : Fault) :
      OfAttempts standard steps ⟨time, .warn, "Step failed, continuing", [],
        Policy.continuedDetails header.name made fault⟩

/-- An entry with something that the host has to say. -/
structure OfHost (entry : LogEntry) : Prop where
  bindings : entry.bindings = []
  details : entry.details = []

variable {entry : LogEntry} {key : Text}

theorem shownDetails_eq_assignAll (details : Entries Datum) : shownDetails details =
    Entries.assignAll [] (details.map fun detail ↦ (detail.1, flattened detail.2)) := by
  rw [shownDetails, Entries.assignAll, List.foldl_map]

theorem notMem_keys_shownDetails {details : Entries Datum}
    (h : ∀ detail ∈ details, detail.1 ≠ key) : key ∉ Entries.keys (shownDetails details) := by
  intro hkey
  obtain ⟨shown, hmem, rfl⟩ := List.mem_map.mp hkey
  rw [shownDetails_eq_assignAll] at hmem
  obtain ⟨detail, hdetail, rfl⟩ :=
    List.mem_map.mp ((Entries.mem_assignAll hmem).resolve_left List.not_mem_nil)
  exact h detail hdetail rfl

/-- Details whose keys are in order are shown one by one. -/
theorem shownDetails_of_inOrder {details : Entries Datum} (h : Entries.InOrder details) :
    shownDetails details = details.map fun detail ↦ (detail.1, flattened detail.2) := by
  rw [shownDetails_eq_assignAll]
  exact Entries.assignAll_of_inOrder (.of_keys (Entries.keys details) (by simp [Entries.keys]) h)

/-- What an entry shows under the key of one of its details is this detail. -/
theorem member_payload_of_mem (horder : Entries.InOrder entry.details) {detail : Datum}
    (h : (key, detail) ∈ entry.details) : entry.payload.member key = flattened detail := by
  have hshown : (key, flattened detail) ∈ shownDetails entry.details := by
    rw [shownDetails_of_inOrder horder]
    exact List.mem_map.mpr ⟨_, h, rfl⟩
  have hkeys : Entries.keys (shownDetails entry.details) = Entries.keys entry.details := by
    simp [shownDetails_of_inOrder horder, Entries.keys]
  have hnodup : (Entries.keys (shownDetails entry.details)).Nodup := by
    rw [hkeys]
    exact Entries.KeysInOrder.nodup horder
  rw [payload, Datum.member, Entries.find?_override_of_mem hnodup hshown]

/-- What an entry shows under a key that is none of its details is what its logger says there. -/
theorem member_payload (h : ∀ detail ∈ entry.details, detail.1 ≠ key) :
    entry.payload.member key = ((Entries.find? (Entries.override
      [("timestamp", .text (Moment.ofClock entry.time)), ("level", .text entry.level.name),
        ("message", .text entry.message)] entry.bindings) key).getD .absent) := by
  rw [payload, Datum.member, Entries.find?_override_of_notMem (notMem_keys_shownDetails h)]
  cases Entries.find? _ key <;> rfl

/-- What a run writes about itself names it and its workflow. -/
theorem OfRun.names {runId workflow : Text}
    (h : entry.OfRun [("runId", .text runId), ("workflow", .text workflow)]) :
    entry.Names runId workflow := by
  have hdetails : ∀ key ∈ runKeys, ∀ detail ∈ entry.details, detail.1 ≠ key :=
    fun key hkey detail hdetail heq ↦ h.details detail hdetail (heq ▸ hkey)
  constructor
  · rw [member_payload (hdetails _ (by simp [runKeys])), h.bindings]
    simp only [Entries.override, List.foldl_cons, List.foldl_nil]
    rw [Entries.find?_put_of_ne _ _ (by decide), Entries.find?_put_self]
    rfl
  · rw [member_payload (hdetails _ (by simp [runKeys])), h.bindings]
    simp only [Entries.override, List.foldl_cons, List.foldl_nil]
    rw [Entries.find?_put_self]
    rfl

/-- Who writes without the names of a run, and under other keys than these, names none. -/
theorem isNameless_of_keys (keys : List Text) (hbindings : entry.bindings = [])
    (hkeys : Entries.keys entry.details = keys) (h : ∀ key ∈ keys, key ∉ runKeys) :
    entry.IsNameless := by
  have hown : ∀ key ∈ runKeys, key ∉ (["timestamp", "level", "message"] : List Text) := by decide
  have hdetails : ∀ key ∈ runKeys, ∀ detail ∈ entry.details, detail.1 ≠ key :=
    fun key hkey detail hdetail heq ↦ h _ (hkeys ▸ List.mem_map_of_mem hdetail) (heq ▸ hkey)
  intro key hkey
  rw [member_payload (hdetails key hkey), hbindings, Entries.override, List.foldl_nil,
    Entries.find?_eq_none (hown key hkey)]
  rfl

theorem OfAttempts.isNameless {standard : RetryPlan} {steps : List Step}
    (h : entry.OfAttempts standard steps) : entry.IsNameless := by
  cases h with
  | retried =>
    exact isNameless_of_keys ["step", "attempt", "maxAttempts", "delaySeconds", "error"] rfl rfl
      (by decide)
  | tolerated =>
    exact isNameless_of_keys ["step", "attempts", "kind", "error"] rfl rfl (by decide)

theorem OfHost.isNameless (h : entry.OfHost) : entry.IsNameless :=
  isNameless_of_keys [] h.bindings (by rw [h.details]; rfl) (by simp)

end LogEntry

/-! ### Who writes them -/

variable {σ : Type} {setting : Setting σ} {steps : List Step} {asks : Call → Prop}

/-- An entry that is accounted for: the run, the attempts at its actions or its host have written
it. -/
def LogEntry.IsOf (setting : Setting σ) (steps : List Step) (entry : LogEntry) : Prop :=
  entry.OfRun setting.bindings ∨ entry.OfAttempts setting.retry steps ∨ entry.OfHost

/-- What the host says to the log is of the host. -/
theorem Remark.ofHost_of_mem {time : Number} {remarks : List Remark} {entry : LogEntry}
    (h : .logged entry ∈ Remark.events time remarks) : entry.OfHost := by
  obtain ⟨remark, -, hremark⟩ := List.mem_map.mp h
  obtain rfl := Event.logged.inj hremark
  exact ⟨rfl, rfl⟩

theorem Outcome.notMem_runKeys_of_mem_entries (outcome : Outcome) :
    ∀ detail ∈ Datum.ofEntries outcome.entries, detail.1 ∉ LogEntry.runKeys := by
  intro detail hdetail
  have hfields : ∀ name ∈ (["step", "action", "path", "status", "attempts", "durationMs", "error",
      "resultKey"] : List Text), name ∉ LogEntry.runKeys := by decide
  rw [Datum.ofEntries_eq_map] at hdetail
  obtain ⟨entry, hentry, rfl⟩ := List.mem_map.mp hdetail
  have hkey : entry.1 ∈ Entries.keys outcome.entries := List.mem_map.mpr ⟨entry, hentry, rfl⟩
  exact hfields _ ((Entries.keys_present_sublist _).subset hkey)

/-- Nothing is written to the log where a run is cancelled. -/
theorem Signal.logged_notMem_abortion (reason : Option Datum) (signal : Signal) (entry : LogEntry) :
    .logged entry ∉ signal.abortion reason := by
  intro h
  obtain ⟨why, hwhy⟩ := eq_aborted_of_mem h
  cases hwhy

namespace Live

variable {live after : Live σ} {entry : LogEntry}

/-- The entries that a deed adds to the log are accounted for. -/
theorem Deed.logs (h : Deed setting steps asks live after) (hentry : .logged entry ∈ after.events) :
    .logged entry ∈ live.events ∨ entry.IsOf setting steps := by
  have hadded : ∀ other : LogEntry, .logged entry ∈ live.events ++ [.logged other] →
      .logged entry ∈ live.events ∨ entry = other := by
    intro other hmem
    simpa using hmem
  cases h with
  | begun => exact .inl hentry
  | visited | asked | bound => exact .inl (by simpa [note, bind] using hentry)
  | said level message details live hdetails =>
    rcases hadded _ hentry with hold | rfl
    · exact .inl hold
    · exact .inr (.inl ⟨rfl, hdetails⟩)
  | retried hstep hpolicy made fault =>
    rcases hadded _ hentry with hold | rfl
    · exact .inl hold
    · exact .inr (.inr (.inl (.retried hstep hpolicy _ made fault)))
  | tolerated hstep hpolicy made fault =>
    rcases hadded _ hentry with hold | rfl
    · exact .inl hold
    · exact .inr (.inr (.inl (.tolerated hstep hpolicy _ made fault)))
  | requested _ hask =>
    obtain ⟨now, rfl⟩ := ask_eq hask
    rcases List.mem_append.mp hentry with hold | hnew
    · exact .inl hold
    · rcases List.mem_append.mp ((List.mem_cons.mp hnew).resolve_left (by simp)) with hsaid | hquiet
      · exact .inr (.inr (.inr (Remark.ofHost_of_mem hsaid)))
      · exact absurd hquiet (Signal.logged_notMem_abortion _ _ _)
  | paused =>
    rw [pause_eq] at hentry
    rcases List.mem_append.mp hentry with hold | hnew
    · exact .inl hold
    · exact absurd ((List.mem_cons.mp hnew).resolve_left (by simp))
        (Signal.logged_notMem_abortion _ _ _)
  | recorded outcome =>
    rw [record_eq] at hentry
    rcases List.mem_append.mp hentry with hold | hnew
    · exact .inl hold
    · rcases List.mem_cons.mp ((List.mem_cons.mp hnew).resolve_left (by simp)) with hown | hquiet
      · obtain rfl := Event.logged.inj hown
        exact .inr (.inl ⟨rfl, outcome.notMem_runKeys_of_mem_entries⟩)
      · exact absurd hquiet (Signal.logged_notMem_abortion _ _ _)

/-- The entries that a run adds to the log by deeds are accounted for. -/
theorem Does.logs (h : Does setting steps asks live after) (hentry : .logged entry ∈ after.events) :
    .logged entry ∈ live.events ∨ entry.IsOf setting steps := by
  induction h with
  | refl => exact .inl hentry
  | tail _ hdeed ih => exact (hdeed.logs hentry).elim ih .inr

theorem IsFresh.logs (hfresh : live.IsFresh) (h : Does setting steps asks live after)
    (hentry : .logged entry ∈ after.events) : entry.IsOf setting steps :=
  (h.logs hentry).resolve_left (by simp [hfresh.events])

end Live

/-! ### Runs -/

namespace Workflow

variable {host : Host σ} {options : RunParameters} {document : Datum} {validated : Validated}
  {live : Live σ}

/-- An entry of the log of a run: it names the run and its workflow, or it names none and is of the
attempts at an action or of the host. -/
def Validated.Accounts (validated : Validated) (options : RunParameters) (entry : LogEntry) :
    Prop :=
  entry.Names options.runId validated.workflow.name ∨
    entry.IsNameless ∧
      (entry.OfAttempts options.retry validated.workflow.steps ∨ entry.OfHost)

theorem accounts_of_isOf {entry : LogEntry}
    (h : entry.IsOf (validated.workflow.setting host options) validated.workflow.steps) :
    validated.Accounts options entry := by
  rcases h with hrun | hattempts | hhost
  · exact .inl hrun.names
  · exact .inr ⟨hattempts.isNameless, .inl hattempts⟩
  · exact .inr ⟨hhost.isNameless, .inr hhost⟩

/-- At every point of every run, and at its end, each entry of its log names the run and its
workflow, but for those about the attempts at an action whose policy asks for them and for those of
the host. -/
theorem run_logs (hfresh : live.IsFresh) (hvalid : validate document = .ok validated) :
    (∀ walk, Walk.Reaches (validated.workflow.setting host options)
        (firstWalk validated host options live) walk →
      ∀ entry, .logged entry ∈ walk.live.events → validated.Accounts options entry) ∧
    ∀ turns result after, run host options document turns live = some (.ok result, after) →
      ∀ entry, .logged entry ∈ after.events → validated.Accounts options entry := by
  have hopening := opening_does validated host options validated.workflow.steps (fun _ ↦ True) live
  constructor
  · intro walk hreaches entry hentry
    have hdoes := hopening.trans (hreaches.does (firstWalk_within validated host options live))
    exact accounts_of_isOf (hfresh.logs hdoes hentry)
  · intro turns result after hrun entry hentry
    have hdoes := hopening.trans (run_does hvalid hrun .start).1
    exact accounts_of_isOf (hfresh.logs hdoes hentry)

/-- A document with a click whose failure is tolerated. -/
def toleratedClick : Datum :=
  .object [("name", .text "clicks"), ("version", .text "1"), ("steps", .sequence [
    .object [("name", .text "go"), ("action", .text "click"), ("selector", .text "#a"),
      ("on_error", .text "continue")] []])] []

/-- The entries of a log that have a message. -/
def entriesWith (message : Text) (events : List Event) : List LogEntry :=
  events.filterMap fun
    | .logged entry => if entry.message = message then some entry else none
    | _ => none

theorem exists_logged_of_map {α : Type} {message : Text} {events : List Event}
    {look : LogEntry → α} {found : α} (h : (entriesWith message events).map look = [found]) :
    ∃ entry, .logged entry ∈ events ∧ entry.message = message ∧ look entry = found := by
  obtain ⟨entry, hentries, hlook⟩ := List.map_eq_singleton_iff.mp h
  have hmem : entry ∈ entriesWith message events := hentries ▸ List.mem_singleton_self entry
  obtain ⟨event, hevent, hfound⟩ := List.mem_filterMap.mp hmem
  split at hfound
  · split at hfound
    · next hmessage =>
      cases hfound
      exact ⟨entry, hevent, hmessage, hlook⟩
    · cases hfound
  · cases hfound

/-- Whether an entry shows something under a key. -/
def shows (key : Text) (entry : LogEntry) : Bool := !(entry.payload.member key).isAbsent

/-- That the click has failed is written without the name of the run, and that it is over with
it. -/
theorem run_logs_toleratedClick :
    ∃ (result : RunResult) (after : Live Unit) (failed finished : LogEntry),
      run refusing (.standard "morning") toleratedClick 5 (idle 0 .quiet ()) =
        some (.ok result, after) ∧
      (.logged failed ∈ after.events ∧ failed.message = "Step failed, continuing" ∧
        failed.IsNameless) ∧
      .logged finished ∈ after.events ∧ finished.message = "Step finished" ∧
        finished.Names "morning" "clicks" := by
  have hnamed : (validate toleratedClick).toOption.map (fun v ↦ v.workflow.name) =
      some "clicks" := by decide +kernel
  have hreturned : (returned? (run refusing (.standard "morning") toleratedClick 5
      (idle 0 .quiet ()))).map (fun found ↦
        ((entriesWith "Step failed, continuing" found.2.events).map (shows "runId"),
          (entriesWith "Step finished" found.2.events).map (shows "runId"))) =
      some ([false], [true]) := by decide +kernel
  obtain ⟨validated, hvalid, hname⟩ := Option.map_eq_some_iff.mp hnamed
  obtain ⟨⟨result, after⟩, hresult, hshown⟩ := Option.map_eq_some_iff.mp hreturned
  obtain ⟨hfailed, hfinished⟩ := Prod.mk.inj hshown
  have hrun := eq_some_of_returned? hresult
  have hlogs := (run_logs ⟨rfl, rfl⟩ (validate_of_toOption hvalid)).2 5 result after hrun
  obtain ⟨failed, hin, hmessage, hnameless⟩ := exists_logged_of_map hfailed
  obtain ⟨finished, hin', hmessage', hnames⟩ := exists_logged_of_map hfinished
  refine ⟨result, after, failed, finished, hrun, ⟨hin, hmessage, ?_⟩, hin', hmessage', ?_⟩
  · rcases hlogs failed hin with hnamed | ⟨hnone, -⟩
    · simp [shows, hnamed.runId, Datum.isAbsent] at hnameless
    · exact hnone
  · rcases hlogs finished hin' with hnamed | ⟨hnone, -⟩
    · exact hname ▸ hnamed
    · simp [shows, hnone "runId" (by simp [LogEntry.runKeys]), Datum.isAbsent] at hnames

/-- Not every entry of a run that is not of its host names the run. -/
theorem not_forall_run_logs :
    ¬ ∀ (host : Host Unit) (options : RunParameters) (document : Datum) (validated : Validated)
        (turns : Nat) (live after : Live Unit) (result : RunResult), live.IsFresh →
      validate document = .ok validated →
      run host options document turns live = some (.ok result, after) →
      ∀ entry, .logged entry ∈ after.events → ¬ entry.OfHost →
        entry.Names options.runId validated.workflow.name := by
  intro hlogs
  have hvalidated : (validate toleratedClick).toOption.isSome = true := by decide +kernel
  obtain ⟨validated, hvalid⟩ := Option.isSome_iff_exists.mp hvalidated
  have hreturned : (returned? (run refusing (.standard "morning") toleratedClick 5
      (idle 0 .quiet ()))).map (fun found ↦
        (entriesWith "Step failed, continuing" found.2.events).map fun entry ↦
          (shows "runId" entry, entry.details.isEmpty)) = some [(false, false)] := by
    decide +kernel
  obtain ⟨⟨result, after⟩, hresult, hfailed⟩ := Option.map_eq_some_iff.mp hreturned
  obtain ⟨failed, hin, -, hshown⟩ := exists_logged_of_map hfailed
  obtain ⟨hnameless, hdetails⟩ := Prod.mk.inj hshown
  have hnamed := hlogs refusing (.standard "morning") toleratedClick validated 5 (idle 0 .quiet ())
    after result ⟨rfl, rfl⟩ (validate_of_toOption hvalid) (eq_some_of_returned? hresult) failed hin
    fun hhost ↦ by simp [hhost.details] at hdetails
  simp [shows, hnamed.runId, Datum.isAbsent] at hnameless

end Workflow

end BrowserFlow
