import BrowserFlow.Proofs.Report.Files
import BrowserFlow.Proofs.Run.Reporting

/-!
The file of outcomes, read again. A line of it holds no line end, whatever texts
the outcome has, so the file breaks at its line ends into the lines that were
written (`Text.splitOn_concat`), and each of them is read as what JSON keeps of
its record (`Json.read?_write`). Once an outcome is logged, the directory and the
file are there, nothing is left to be made, and the next outcome is logged as well
(`RunDirectory.IsOpenOn`). Main statement: where the first of some outcomes can be
logged, all of them are, each on a line of its own behind what was in the file, in
their order, and every line is read as its record (`RunDirectory.log_records`).
-/

set_option autoImplicit false
set_option relaxedAutoImplicit false

namespace BrowserFlow

/-! ### Records -/

namespace LoggedOutcome

/-- The record of an outcome: when it is logged, and behind that what reports show of it. -/
def record (logged : LoggedOutcome) : Value :=
  .mapping (("timestamp", .text (Moment.ofClock logged.now)) :: logged.entries)

/-- The line about an outcome holds its record, when the keys of the record are in order. -/
theorem line_eq {logged : LoggedOutcome} (h : logged.record.isOrdered = true) :
    logged.line = Json.write logged.record ++ "\n" := by
  obtain ⟨horder, -⟩ := Value.isOrdered_mapping.mp h
  rw [line, RunDirectory.outcomeLine, Entries.override_eq_append horder]
  rfl

/-- The lines about outcomes break at their ends into the records. -/
theorem splitOn_lines {logged : List LoggedOutcome}
    (h : ∀ one ∈ logged, one.record.isOrdered = true) :
    (Text.concat (logged.map line)).splitOn '\n' =
      logged.map (fun one ↦ Json.write one.record) ++ [Text.empty] := by
  have hlines : logged.map line =
      (logged.map fun one ↦ Json.write one.record).map (· ++ ⟨[CodeUnit.ofChar '\n']⟩) := by
    rw [List.map_map, ← Text.break_eq]
    exact List.map_congr_left fun one hone ↦ line_eq (h one hone)
  rw [hlines]
  refine Text.splitOn_concat fun piece hpiece ↦ ?_
  obtain ⟨one, -, rfl⟩ := List.mem_map.mp hpiece
  exact (Json.oneLine_write one.record).no_break

end LoggedOutcome

namespace Disk

variable {disk made after : Disk} {start place : FilePlace} {names : List Text}
  {path content : Text}

/-- Where directories were made along names, nothing is left to be made while they are kept. -/
theorem makeAlong_again (h : disk.makeAlong start names = (.ok (), made))
    (hkeeps : Keeps made after) : after.makeAlong start names = (.ok (), after) := by
  fun_induction makeAlong disk start names with
  | case1 => rfl
  | case2 | case7 => cases (Prod.mk.inj h).1
  | case3 disk start rest hshort ih => rw [makeAlong, if_neg hshort, if_pos rfl, ih h]
  | case4 disk start rest hshort hhere ih =>
    rw [makeAlong, if_neg hshort, if_neg hhere, if_pos rfl, ih h]
  | case5 disk start name rest hshort hhere habove next hnone ih =>
    have hmade := keeps_makeAlong (disk.put next .directory) next rest
    rw [h] at hmade
    have hthere := hkeeps.directories next
      (hmade.directories next (node?_put_self disk (by simp [next]) .directory))
    rw [makeAlong, if_neg hshort, if_neg hhere, if_neg habove]
    simp only [next] at hthere ⊢
    rw [hthere]
    exact ih h
  | case6 disk start name rest hshort hhere habove next hthere ih =>
    have hmade := keeps_makeAlong disk next rest
    rw [h] at hmade
    have hthere := hkeeps.directories next (hmade.directories next hthere)
    rw [makeAlong, if_neg hshort, if_neg hhere, if_neg habove]
    simp only [next] at hthere ⊢
    rw [hthere]
    exact ih h

/-- Where a directory was made, nothing is left to be made while it is kept. -/
theorem makeDirectory_again (h : disk.makeDirectory path = (.ok (), made))
    (hkeeps : Keeps made after) : after.makeDirectory path = (.ok (), after) := by
  have hhome := home_makeDirectory disk path
  rw [h] at hhome
  have horigin : after.origin path = disk.origin path := by
    rw [origin, origin, hkeeps.home, hhome]
  rw [makeDirectory] at h ⊢
  dsimp only at h ⊢
  split at h
  · cases (Prod.mk.inj h).1
  · next hflawless =>
    obtain ⟨hmade, hend⟩ := Prod.mk.inj h
    have hnames : disk.makeAlong (disk.origin path) (steps path) = (.ok (), made) := by
      refine Prod.ext ?_ hend
      cases hresult : (disk.makeAlong (disk.origin path) (steps path)).1 with
      | ok => rfl
      | error flaw =>
        rw [hresult] at hmade
        cases hmade
    rw [horigin, makeAlong_again hnames hkeeps]
    rfl

/-- A file that is there can be changed. -/
theorem update_of_fileIn? (hlocate : disk.locate path = .ok place)
    (hfile : disk.fileIn? place = some content) (change : Text → Text) :
    disk.update path change = .ok (disk.put place (.file (change content))) := by
  rw [update, hlocate]
  dsimp only
  rw [fileIn?_eq_some_iff.mp hfile]

end Disk

/-! ### Outcomes logged one after the other -/

namespace RunDirectory

variable {directory : RunDirectory} {disk after : Disk}

/-- A disk on which the directory and the file of outcomes are there. -/
structure IsOpenOn (directory : RunDirectory) (disk : Disk) : Prop where
  made : disk.makeDirectory directory.path = (.ok (), disk)
  file : ∃ place content, disk.locate (directory.file outcomesName) = .ok place ∧
    disk.fileIn? place = some content

/-- Behind an outcome that was logged, the directory and the file are there. -/
theorem isOpenOn_of_addOutcome {now : Number} {outcome : Entries Value}
    (h : Writing.on disk (directory.addOutcome now outcome) = (.ok (), after)) :
    directory.IsOpenOn after := by
  obtain ⟨place, hlocate, hfile⟩ := (addOutcome_amends h).file
  obtain ⟨made, hmade, hchange⟩ := on_ensured h
  have hkeeps := (amends_file (by decide : FilePath.IsFileName outcomesName)
    (eq_of_on_change hchange)).keeps
  exact ⟨Disk.makeDirectory_again hmade hkeeps, place, _, hlocate, hfile⟩

/-- Where the directory and the file are there, an outcome is logged. -/
theorem IsOpenOn.exists_on_addOutcome (h : directory.IsOpenOn disk) (now : Number)
    (outcome : Entries Value) :
    ∃ after, Writing.on disk (directory.addOutcome now outcome) = (.ok (), after) := by
  obtain ⟨place, content, hlocate, hfile⟩ := h.file
  have happend : disk.append (directory.file "outcomes.jsonl") (outcomeLine now outcome) = _ :=
    Disk.update_of_fileIn? hlocate hfile _
  exact ⟨disk.put place (.file (content ++ (outcomeLine now outcome).mended)), by
    rw [addOutcome, Writing.on_bind, ensure, Writing.on_makeDirectory, h.made]
    dsimp only
    rw [Writing.on_change, happend]⟩

/-- Where the directory and the file are there, any outcomes are logged. -/
theorem IsOpenOn.exists_on_log (h : directory.IsOpenOn disk) (logged : List LoggedOutcome) :
    ∃ after, Writing.on disk (directory.log logged) = (.ok (), after) := by
  induction logged generalizing disk with
  | nil => exact ⟨disk, rfl⟩
  | cons first others ih =>
    obtain ⟨middle, hfirst⟩ := h.exists_on_addOutcome first.now first.entries
    rw [log_cons, Writing.on_bind, hfirst]
    exact ih (isOpenOn_of_addOutcome hfirst)

/-- A disk with records behind what was in the file of outcomes: the text that was added breaks at
its line ends into a line for each outcome, in their order, and each line is read as what JSON keeps
of the record of its outcome. -/
def AddsRecords (directory : RunDirectory) (logged : List LoggedOutcome) (before after : Disk) :
    Prop :=
  ∃ place added lines, after.locate (directory.file outcomesName) = .ok place ∧
    after.read (directory.file outcomesName) =
      .ok ((before.fileIn? place).getD Text.empty ++ added) ∧
    added.splitOn '\n' = lines ++ [Text.empty] ∧
    List.Forall₂ (fun one line ↦ Json.read? line = some one.record.kept) logged lines

/-- Where the first of some outcomes is logged, all of them are, and their records are added,
whatever texts are in them. -/
theorem log_records {first : LoggedOutcome} {others : List LoggedOutcome}
    (hordered : ∀ one ∈ first :: others, one.record.isOrdered = true)
    (hfirst : (Writing.on disk (directory.addOutcome first.now first.entries)).1 = .ok ()) :
    ∃ after, Writing.on disk (directory.log (first :: others)) = (.ok (), after) ∧
      directory.AddsRecords (first :: others) disk after := by
  obtain ⟨after, hall⟩ : ∃ after,
      Writing.on disk (directory.log (first :: others)) = (.ok (), after) := by
    rw [log_cons, Writing.on_bind]
    split
    · next middle hmiddle => exact (isOpenOn_of_addOutcome hmiddle).exists_on_log others
    · next middle hmiddle =>
      rw [hmiddle] at hfirst
      cases hfirst
  obtain ⟨place, hlocate, hfile⟩ := (log_amends hall).file
  refine ⟨after, hall, place, _, _, hlocate, Disk.read_of_fileIn? hlocate hfile,
    LoggedOutcome.splitOn_lines hordered, ?_⟩
  exact List.forall₂_map_right_iff.mpr (List.forall₂_same.mpr fun one hone ↦
    Json.read?_write (hordered one hone))

/-- An outcome whose texts hold line ends, quotes, control characters and surrogates without
partners. -/
def roughOutcome : Entries Value := [
  ("step", .text ⟨['\n', '"', '\\', 0, 0x1F, 0xD800, 'x', 0xDC00]⟩),
  ("path", .text "steps[0]\r\n\u2028"),
  ("error", .mapping [("kind", .text "StepExecutionError"), ("message", .text "one\n\"two\"")])]

/-- Two rough outcomes are logged in a new directory. -/
theorem log_records_roughOutcome :
    ∃ after, Writing.on ⟨["work"], [(["work"], .directory)]⟩
        (log ⟨"runs/first"⟩ [⟨0, roughOutcome⟩, ⟨1, roughOutcome⟩]) = (.ok (), after) ∧
      AddsRecords ⟨"runs/first"⟩ [⟨0, roughOutcome⟩, ⟨1, roughOutcome⟩]
        ⟨["work"], [(["work"], .directory)]⟩ after :=
  log_records (by decide) rfl

end RunDirectory

end BrowserFlow
