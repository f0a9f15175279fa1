import BrowserFlow.Proofs.Workflow.Paths
import BrowserFlow.Report.Summary
import Mathlib.Data.List.Forall2
import Mathlib.Data.List.Zip

/-!
The failures that a summary lists, read again. The lines of a page under a heading are
those up to the next empty line (`Text.linesUnder`). A line about a failure is taken
apart at its marks, and gives back the failure exactly where no mark occurs in a part
before it is due (`Finding.ofLine?_line`). Main statement: the lines under the heading of
the failures are one about each failure, in their order, exactly where no text of a
failure holds a line end, and the failures are read back from them exactly where the
lines can also be taken apart; what passed, what failed and what was skipped make up all
outcomes (`Summary.failures_listed`). A message of two lines makes two lines of one
failure, and it can look like another failure, so that nothing reads back the failures of
all summaries (`Summary.not_forall_failures_listed`).
-/

set_option autoImplicit false
set_option relaxedAutoImplicit false

namespace BrowserFlow

/-! ### Sections of a page -/

namespace Text

/-- The lines of a page behind the first line that is a heading, up to the next empty line. -/
def linesUnder (heading page : Text) : List Text :=
  (((page.splitOn '\n').dropWhile (· != heading)).drop 1).takeWhile (!·.isEmpty)

variable {heading page line : Text} {above content below : List Text}

theorem no_break_of_mem_linesUnder (h : line ∈ linesUnder heading page) :
    CodeUnit.ofChar '\n' ∉ line.units :=
  not_mem_of_mem_splitOn ((List.dropWhile_sublist _).subset (List.mem_of_mem_drop
    ((List.takeWhile_sublist _).subset h)))

/-- The lines under a heading are those of what stands between it and an empty line, up to the
first that is empty. -/
theorem linesUnder_join (hheading : CodeUnit.ofChar '\n' ∉ heading.units)
    (habove : ∀ line ∈ above, heading ∉ line.splitOn '\n') :
    linesUnder heading (join "\n" (above ++ heading :: (content ++ empty :: below))) =
      (content.flatMap (·.splitOn '\n')).takeWhile (!·.isEmpty) := by
  have hpassed : ∀ line ∈ above.flatMap (·.splitOn '\n'), (line != heading) = true := by
    intro line hline
    obtain ⟨owner, howner, hmem⟩ := List.mem_flatMap.mp hline
    exact bne_iff_ne.mpr fun heq ↦ habove owner howner (heq ▸ hmem)
  have hempty : empty.splitOn '\n' = [empty] := splitOn_of_not_mem List.not_mem_nil
  rw [linesUnder, break_eq, splitOn_join_eq_flatMap (by simp), List.flatMap_append,
    List.flatMap_cons, List.flatMap_append, List.flatMap_cons, splitOn_of_not_mem hheading, hempty,
    List.dropWhile_append_of_pos hpassed, List.singleton_append,
    List.dropWhile_cons_of_neg (by simp), List.drop_one, List.tail_cons, List.takeWhile_append]
  split
  · next hall =>
    rw [List.singleton_append, List.takeWhile_cons_of_neg (by decide), List.append_nil]
    exact ((List.takeWhile_prefix _).eq_of_length hall).symm
  · rfl

/-- A mark is found behind a text exactly when it does not occur before all of its units are
there. -/
theorem breakOn?_mark_iff {t mark begun : Text} {after : List CodeUnit} (hmark : mark.units ≠ [])
    (hbegun : begun.units = mark.units.dropLast) :
    breakOn? mark.units (t.units ++ mark.units ++ after) = some (t.units, after) ↔
      (t ++ begun).contains mark = false := by
  rw [contains_eq_false_iff, breakOn?_append_iff hmark, units_append, hbegun]

end Text

/-! ### Lines about failures -/

namespace Finding

variable {finding : Finding} {line : Text}

/-- A failure whose texts hold no line end. -/
structure IsOnOneLine (finding : Finding) : Prop where
  path : CodeUnit.ofChar '\n' ∉ finding.path.units
  step : CodeUnit.ofChar '\n' ∉ finding.step.units
  detail : CodeUnit.ofChar '\n' ∉ finding.detail.units

/-- The line about a failure is one line exactly where its texts hold no line end. -/
theorem no_break_line_iff (index : Nat) :
    CodeUnit.ofChar '\n' ∉ (finding.line index).units ↔ finding.IsOnOneLine := by
  have hnumber : CodeUnit.ofChar '\n' ∉ (Text.ofNat (index + 1)).units :=
    Text.notMem_ofNat (by decide) _
  have hdot : CodeUnit.ofChar '\n' ∉ (Text.ofString ". ").units := by decide
  have hquote : CodeUnit.ofChar '\n' ∉ (Text.ofString " \"").units := by decide
  have hcolon : CodeUnit.ofChar '\n' ∉ (Text.ofString "\": ").units := by decide
  simp only [line, Text.units_append, List.mem_append, hnumber, hdot, hquote, hcolon, false_or,
    or_false, not_or]
  exact ⟨fun ⟨⟨hpath, hstep⟩, hdetail⟩ ↦ ⟨hpath, hstep, hdetail⟩,
    fun ⟨hpath, hstep, hdetail⟩ ↦ ⟨⟨hpath, hstep⟩, hdetail⟩⟩

/-- The kind and the message that a detail shows, if it shows them. -/
def readDetail (detail : List CodeUnit) : Option (Text × Text) :=
  (Text.breakOn? (Text.ofString " - ").units detail).map fun (kind, message) ↦
    (⟨kind⟩, ⟨message⟩)

/-- The failure that a line is about: its number ends at a dot, its path at a quotation mark, and
the name of its step at a quotation mark before a colon. -/
def ofLine? (line : Text) : Option Finding := do
  let (_, named) ← Text.breakOn? (Text.ofString ". ").units line.units
  let (path, quoted) ← Text.breakOn? (Text.ofString " \"").units named
  let (step, detail) ← Text.breakOn? (Text.ofString "\": ").units quoted
  return ⟨⟨path⟩, ⟨step⟩, some .failed, readDetail detail⟩

/-- What a line is read as is found between its marks. -/
theorem ofLine?_eq_some_iff : ofLine? line = some finding ↔
    ∃ number named quoted detail,
      Text.breakOn? (Text.ofString ". ").units line.units = some (number, named) ∧
      Text.breakOn? (Text.ofString " \"").units named = some (finding.path.units, quoted) ∧
      Text.breakOn? (Text.ofString "\": ").units quoted = some (finding.step.units, detail) ∧
      finding.status = some .failed ∧ finding.error = readDetail detail := by
  constructor
  · intro hread
    obtain ⟨⟨number, named⟩, hnumber, hread⟩ := Option.bind_eq_some_iff.mp hread
    obtain ⟨⟨path, quoted⟩, hpath, hread⟩ := Option.bind_eq_some_iff.mp hread
    obtain ⟨⟨step, detail⟩, hstep, hread⟩ := Option.bind_eq_some_iff.mp hread
    obtain rfl := Option.some.inj hread
    exact ⟨number, named, quoted, detail, hnumber, hpath, hstep, rfl, rfl⟩
  · rintro ⟨number, named, quoted, detail, hnumber, hpath, hstep, hstatus, herror⟩
    obtain ⟨path, step, status, error⟩ := finding
    obtain rfl : status = some .failed := hstatus
    obtain rfl : error = readDetail detail := herror
    simp only [ofLine?, hnumber, hpath, hstep, bind, Option.bind, pure]

/-- A failure in whose line no mark occurs before it is due. -/
structure IsLegible (finding : Finding) : Prop where
  path : (finding.path ++ " ").contains " \"" = false
  step : (finding.step ++ "\":").contains "\": " = false
  kind : ∀ kind message, finding.error = some (kind, message) →
    (kind ++ " -").contains " - " = false

/-- The details of a failure are read back exactly where its kind can be told from its message. -/
theorem readDetail_detail_iff : readDetail finding.detail.units = finding.error ↔
    ∀ kind message, finding.error = some (kind, message) →
      (kind ++ " -").contains " - " = false := by
  cases herror : finding.error with
  | none =>
    rw [detail, herror]
    exact iff_of_true (by decide) (by simp)
  | some words =>
    obtain ⟨kind, message⟩ := words
    have hread : readDetail (kind.units ++ (Text.ofString " - ").units ++ message.units) =
        some (kind, message) ↔ (kind ++ " -").contains " - " = false := by
      rw [← @Text.breakOn?_mark_iff kind " - " " -" message.units (by decide) (by decide),
        readDetail, Option.map_eq_some_iff]
      constructor
      · rintro ⟨⟨front, back⟩, hbroken, hpair⟩
        obtain ⟨rfl, rfl⟩ := Prod.mk.inj hpair
        exact hbroken
      · exact fun hbroken ↦ ⟨_, hbroken, rfl⟩
    rw [detail, herror]
    refine hread.trans ⟨?_, fun h ↦ h kind message rfl⟩
    rintro hkind _ _ ⟨⟩
    exact hkind

theorem units_line (finding : Finding) (index : Nat) : (finding.line index).units =
    (Text.ofNat (index + 1)).units ++ (Text.ofString ". ").units ++
      (finding.path.units ++ (Text.ofString " \"").units ++
        (finding.step.units ++ (Text.ofString "\": ").units ++ finding.detail.units)) := by
  simp only [line, Text.units_append, List.append_assoc]

theorem isEmpty_line (finding : Finding) (index : Nat) : (finding.line index).isEmpty = false := by
  rw [Text.isEmpty, units_line]
  simp [Text.ofNat_units_ne_nil]

/-- The number of a line ends at its dot. -/
theorem breakOn?_number (index : Nat) (named : List CodeUnit) :
    Text.breakOn? (Text.ofString ". ").units
      ((Text.ofNat (index + 1)).units ++ (Text.ofString ". ").units ++ named) =
        some ((Text.ofNat (index + 1)).units, named) := by
  have hdot : (Text.ofString ". ").units = [CodeUnit.ofChar '.', CodeUnit.ofChar ' '] := by decide
  rw [hdot]
  exact Text.breakOn?_append (Text.notMem_ofNat (by decide) _) named

/-- A line about a failure is read as the failure exactly where no mark occurs in it before it is
due. -/
theorem ofLine?_line (hfailed : finding.isFailed = true) (index : Nat) :
    ofLine? (finding.line index) = some finding ↔ finding.IsLegible := by
  have hstatus : finding.status = some .failed := by simpa [isFailed] using hfailed
  rw [ofLine?_eq_some_iff, units_line, breakOn?_number]
  constructor
  · rintro ⟨_, named, quoted, detail, hnumber, hpath, hstep, -, herror⟩
    obtain ⟨-, rfl⟩ := Prod.mk.inj (Option.some.inj hnumber)
    obtain rfl := List.append_cancel_left (Text.eq_of_breakOn? hpath)
    obtain rfl := List.append_cancel_left (Text.eq_of_breakOn? hstep)
    exact ⟨(Text.breakOn?_mark_iff (by decide) (by decide)).mp hpath,
      (Text.breakOn?_mark_iff (by decide) (by decide)).mp hstep,
      readDetail_detail_iff.mp herror.symm⟩
  · rintro ⟨hpath, hstep, hkind⟩
    exact ⟨_, _, _, _, rfl, (Text.breakOn?_mark_iff (by decide) (by decide)).mpr hpath,
      (Text.breakOn?_mark_iff (by decide) (by decide)).mpr hstep, hstatus,
      (readDetail_detail_iff.mpr hkind).symm⟩

/-- What is read from one line holds no line end. -/
theorem isOnOneLine_of_ofLine? (hread : ofLine? line = some finding)
    (hline : CodeUnit.ofChar '\n' ∉ line.units) : finding.IsOnOneLine := by
  obtain ⟨_, named, quoted, detail, hnumber, hpath, hstep, -, herror⟩ :=
    ofLine?_eq_some_iff.mp hread
  rw [Text.eq_of_breakOn? hnumber, Text.eq_of_breakOn? hpath, Text.eq_of_breakOn? hstep] at hline
  simp only [List.mem_append, not_or] at hline
  obtain ⟨-, ⟨hnopath, -⟩, ⟨hnostep, -⟩, hnodetail⟩ := hline
  refine ⟨hnopath, hnostep, ?_⟩
  rw [Finding.detail, herror, readDetail]
  cases hbroken : Text.breakOn? (Text.ofString " - ").units detail with
  | none => exact (by decide : CodeUnit.ofChar '\n' ∉ (Text.ofString "no details").units)
  | some pair =>
    rw [Text.eq_of_breakOn? hbroken] at hnodetail
    exact hnodetail

end Finding

/-! ### The failures of a summary -/

/-- Some lines are read as some items when each line is read as the item at its place. -/
theorem mapM_eq_some_iff {α β : Type} {read : β → Option α} {lines : List β} {items : List α} :
    lines.mapM read = some items ↔
      List.Forall₂ (fun line item ↦ read line = some item) lines items := by
  induction lines generalizing items with
  | nil =>
    rw [List.mapM_nil, List.forall₂_nil_left_iff]
    exact Option.some_inj.trans eq_comm
  | cons line rest ih =>
    rw [List.mapM_cons]
    constructor
    · intro h
      obtain ⟨item, hitem, h⟩ := Option.bind_eq_some_iff.mp h
      obtain ⟨others, hothers, h⟩ := Option.bind_eq_some_iff.mp h
      obtain rfl := Option.some.inj h
      exact .cons hitem (ih.mp hothers)
    · rintro (_ | ⟨hitem, hothers⟩)
      rw [hitem, ih.mpr hothers]
      rfl

namespace Summary

variable {summary : Summary}

/-- The heading of the failures. -/
def failureHeading : Text := "## Failed Steps"

/-- The line that there are no failures. -/
def noFailure : Text := "- None"

/-- The failures of a run. -/
def failures (summary : Summary) : List Finding := summary.findings.filter Finding.isFailed

/-- A summary in whose head no line reads as the heading of the failures. -/
def HasClearHead (summary : Summary) : Prop :=
  ∀ line ∈ summary.headLines, failureHeading ∉ line.splitOn '\n'

instance : DecidablePred HasClearHead := fun summary ↦
  inferInstanceAs (Decidable (∀ line ∈ summary.headLines, failureHeading ∉ line.splitOn '\n'))

/-- The failures that lines are about. -/
def readFailures? (lines : List Text) : Option (List Finding) :=
  if lines = [noFailure] then some [] else lines.mapM Finding.ofLine?

/-- The lines under the heading of the failures are those about the failures, up to the first that
is empty. -/
theorem linesUnder_toText (hhead : summary.HasClearHead) :
    Text.linesUnder failureHeading summary.toText =
      (summary.failureLines.flatMap (·.splitOn '\n')).takeWhile (!·.isEmpty) := by
  have hheading : Text.ofString "## " ++ "Failed Steps" = failureHeading := by decide
  have hlines : summary.lines ++ [Text.empty] =
      (summary.headLines ++ [Text.empty]) ++ failureHeading ::
        (summary.failureLines ++ Text.empty :: (("## " ++ "Variables" : Text) ::
          (summary.variableLines ++ heading "Run Info" ++ summary.infoLines ++ [Text.empty]))) := by
    rw [← hheading]
    simp only [lines, heading, List.append_assoc, List.cons_append, List.nil_append]
  have hne : summary.lines ≠ [] := by simp [lines, heading]
  rw [toText, ← Text.join_concat_empty _ hne, hlines]
  refine Text.linesUnder_join (by decide) fun line hline ↦ ?_
  rcases List.mem_append.mp hline with hline | hline
  · exact hhead line hline
  · rw [List.mem_singleton.mp hline]
    decide

/-- There is a line about each failure, or the one that there is none. -/
theorem failureLines_cases (summary : Summary) :
    (summary.failures = [] ∧ summary.failureLines = [noFailure]) ∨
    (summary.failures ≠ [] ∧ summary.failureLines = summary.failures.mapIdx Finding.line) := by
  unfold failureLines orNone
  rw [← failures]
  cases summary.failures with
  | nil => exact .inl ⟨rfl, rfl⟩
  | cons first rest => exact .inr ⟨List.cons_ne_nil _ _, if_neg (by simp)⟩

/-- The lines about the failures are lines exactly where no text of a failure holds a line end. -/
theorem forall_no_break_iff (summary : Summary) :
    (∀ line ∈ summary.failureLines, CodeUnit.ofChar '\n' ∉ line.units) ↔
      ∀ finding ∈ summary.failures, finding.IsOnOneLine := by
  rcases summary.failureLines_cases with ⟨hnone, hlines⟩ | ⟨-, hlines⟩
  · rw [hnone, hlines]
    exact iff_of_true (by decide) (by simp)
  · rw [hlines]
    constructor
    · intro h finding hfinding
      obtain ⟨index, hindex, rfl⟩ := List.mem_iff_getElem.mp hfinding
      exact (Finding.no_break_line_iff index).mp
        (h _ (List.mem_mapIdx.mpr ⟨index, hindex, rfl⟩))
    · intro h line hline
      obtain ⟨index, hindex, rfl⟩ := List.mem_mapIdx.mp hline
      exact (Finding.no_break_line_iff index).mpr (h _ (List.getElem_mem hindex))

/-- The lines under the heading of the failures are those about the failures exactly where no text
of a failure holds a line end. -/
theorem linesUnder_eq_iff (hhead : summary.HasClearHead) :
    Text.linesUnder failureHeading summary.toText = summary.failureLines ↔
      ∀ finding ∈ summary.failures, finding.IsOnOneLine := by
  rw [← forall_no_break_iff]
  constructor
  · intro hlines line hline
    exact Text.no_break_of_mem_linesUnder (hlines ▸ hline)
  · intro hwhole
    have hfilled : ∀ line ∈ summary.failureLines, (!line.isEmpty) = true := by
      intro line hline
      rcases summary.failureLines_cases with ⟨-, hlines⟩ | ⟨-, hlines⟩
      · rw [hlines, List.mem_singleton] at hline
        rw [hline]
        decide
      · rw [hlines] at hline
        obtain ⟨index, hindex, rfl⟩ := List.mem_mapIdx.mp hline
        rw [Finding.isEmpty_line, Bool.not_false]
    rw [linesUnder_toText hhead,
      List.flatMap_congr fun line hline ↦ Text.splitOn_of_not_mem (hwhole line hline),
      List.flatMap_singleton', List.takeWhile_eq_self_iff.mpr hfilled]

/-- The failures are read back from their lines exactly where each line can be taken apart. -/
theorem readFailures?_failureLines (summary : Summary) :
    readFailures? summary.failureLines = some summary.failures ↔
      ∀ finding ∈ summary.failures, finding.IsLegible := by
  have hfailed : ∀ finding ∈ summary.failures, finding.isFailed = true :=
    fun finding hfinding ↦ (List.mem_filter.mp hfinding).2
  rcases summary.failureLines_cases with ⟨hnone, hlines⟩ | ⟨hsome, hlines⟩
  · rw [hnone, hlines]
    exact iff_of_true (if_pos rfl) (by simp)
  · have hother : summary.failures.mapIdx Finding.line ≠ [noFailure] := by
      obtain ⟨first, rest, hcons⟩ := List.exists_cons_of_ne_nil hsome
      rw [hcons, List.mapIdx_cons]
      intro heq
      have hline : (Finding.line 0 first).units = noFailure.units :=
        congrArg Text.units (List.cons.inj heq).1
      have hbegins : (Finding.line 0 first).units.head? = some (CodeUnit.ofChar '1') := by
        rw [Finding.units_line]
        rfl
      rw [hline] at hbegins
      cases hbegins
    rw [hlines, readFailures?, if_neg hother, mapM_eq_some_iff, List.forall₂_iff_get]
    constructor
    · rintro ⟨-, hread⟩ finding hfinding
      obtain ⟨index, hindex, rfl⟩ := List.mem_iff_getElem.mp hfinding
      have hline := hread index (by rwa [List.length_mapIdx]) hindex
      simp only [List.get_eq_getElem, List.getElem_mapIdx] at hline
      exact (Finding.ofLine?_line (hfailed _ hfinding) index).mp hline
    · intro hlegible
      refine ⟨List.length_mapIdx, fun index _ hindex ↦ ?_⟩
      simp only [List.get_eq_getElem, List.getElem_mapIdx]
      have hfinding := List.getElem_mem hindex
      exact (Finding.ofLine?_line (hfailed _ hfinding) index).mpr (hlegible _ hfinding)

/-- Failures that are read from lines have no line end in their texts. -/
theorem isOnOneLine_of_readFailures? {lines : List Text} {findings : List Finding}
    (hlines : ∀ line ∈ lines, CodeUnit.ofChar '\n' ∉ line.units)
    (hread : readFailures? lines = some findings) : ∀ finding ∈ findings, finding.IsOnOneLine := by
  intro finding hfinding
  unfold readFailures? at hread
  split at hread
  · obtain rfl := Option.some.inj hread
    cases hfinding
  · obtain ⟨hlength, hread⟩ := List.forall₂_iff_get.mp (mapM_eq_some_iff.mp hread)
    obtain ⟨index, hindex, rfl⟩ := List.mem_iff_getElem.mp hfinding
    have hline := hread index (hlength ▸ hindex) hindex
    exact Finding.isOnOneLine_of_ofLine? hline (hlines _ (List.getElem_mem _))

/-- What passed, what failed and what was skipped make up the outcomes whose end is known. -/
theorem length_findings (hknown : ∀ finding ∈ summary.findings, finding.status.isSome = true) :
    summary.passed + summary.failures.length = summary.executed ∧
      summary.passed + summary.failures.length + summary.skipped = summary.findings.length := by
  unfold passed failures executed skipped
  generalize summary.findings = findings at hknown
  induction findings with
  | nil => exact ⟨rfl, rfl⟩
  | cons first rest ih =>
    obtain ⟨hfirst, hrest⟩ := List.forall_mem_cons.mp hknown
    obtain ⟨hexecuted, hall⟩ := ih hrest
    obtain ⟨status, hstatus⟩ := Option.isSome_iff_exists.mp hfirst
    simp only [List.filter_cons, List.length_cons, Finding.isPassed, Finding.isFailed,
      Finding.isSkipped, hstatus] at hexecuted hall ⊢
    cases status <;> simp <;> omega

/-- The failures are read back from a summary exactly where their texts hold no line end and their
lines can be taken apart. -/
theorem readFailures?_eq_some_iff (hhead : summary.HasClearHead) :
    readFailures? (Text.linesUnder failureHeading summary.toText) = some summary.failures ↔
      ∀ finding ∈ summary.failures, finding.IsOnOneLine ∧ finding.IsLegible := by
  constructor
  · intro hread
    have hwhole := isOnOneLine_of_readFailures? (fun _ ↦ Text.no_break_of_mem_linesUnder) hread
    rw [(linesUnder_eq_iff hhead).mpr hwhole, readFailures?_failureLines] at hread
    exact fun finding hfinding ↦ ⟨hwhole finding hfinding, hread finding hfinding⟩
  · intro h
    rw [(linesUnder_eq_iff hhead).mpr fun finding hfinding ↦ (h finding hfinding).1,
      readFailures?_failureLines]
    exact fun finding hfinding ↦ (h finding hfinding).2

/-- A summary whose head does not itself hold the heading lists its failures on one line each,
numbered and in their order, exactly where no text of a failure holds a line end; and the failures
are read back from these lines exactly where, besides, no mark occurs in a line before it is due.
What passed and what failed make up what was executed, and with what was skipped all outcomes. -/
theorem failures_listed (hhead : summary.HasClearHead)
    (hknown : ∀ finding ∈ summary.findings, finding.status.isSome = true) :
    (Text.linesUnder failureHeading summary.toText =
        orNone (summary.failures.mapIdx Finding.line) ↔
      ∀ finding ∈ summary.failures, finding.IsOnOneLine) ∧
    (readFailures? (Text.linesUnder failureHeading summary.toText) = some summary.failures ↔
      ∀ finding ∈ summary.failures, finding.IsOnOneLine ∧ finding.IsLegible) ∧
    summary.passed + summary.failures.length = summary.executed ∧
    summary.passed + summary.failures.length + summary.skipped = summary.findings.length :=
  ⟨linesUnder_eq_iff hhead, readFailures?_eq_some_iff hhead, length_findings hknown⟩

/-- A summary of a run that has found this. -/
def ofFindings (findings : List Finding) : Summary :=
  ⟨"pay", "1.0", some .completed, 900, findings, none, [], "run-1", "2026-02-21T10:00:00.000Z"⟩

/-- The failures of two steps. -/
def twoFailures : List Finding :=
  [⟨"steps[0]", "Pay", some .failed, some ("StepExecutionError", "waiting")⟩,
    ⟨"steps[1]", "Send", some .failed, some ("TimeoutError", "late")⟩]

/-- The failure of one step, with a message of two lines. -/
def wrappedFailure : List Finding :=
  [⟨"steps[0]", "Pay", some .failed,
    some ("StepExecutionError", "waiting\n2. steps[1] \"Send\": TimeoutError - late")⟩]

/-- Two failures beside a step that passed and one that was skipped are listed and read back. -/
theorem failures_listed_twoFailures :
    (ofFindings (⟨"steps[2]", "Open", some .success, none⟩ :: twoFailures)).HasClearHead ∧
    readFailures? (Text.linesUnder failureHeading
      (ofFindings (⟨"steps[2]", "Open", some .success, none⟩ :: twoFailures)).toText) =
        some twoFailures ∧
    (ofFindings (⟨"steps[2]", "Open", some .success, none⟩ :: twoFailures)).passed + 2 = 3 := by
  have hhead : (ofFindings (⟨"steps[2]", "Open", some .success, none⟩ ::
      twoFailures)).HasClearHead := by decide +kernel
  obtain ⟨-, hread, hexecuted, -⟩ := failures_listed hhead (by decide)
  refine ⟨hhead, hread.mpr fun finding hfinding ↦ ?_, hexecuted⟩
  rcases List.mem_pair.mp hfinding with rfl | rfl <;>
    exact ⟨⟨by decide, by decide, by decide⟩, by decide, by decide, by rintro _ _ ⟨⟩; decide⟩

/-- A message of two lines makes two lines of one failure, and these can be the lines of two
failures, so that nothing tells the failures by the lines. -/
theorem not_forall_failures_listed :
    (¬∀ summary : Summary, summary.HasClearHead →
      Text.linesUnder failureHeading summary.toText =
        orNone (summary.failures.mapIdx Finding.line)) ∧
    ¬∃ read : List Text → List Finding, ∀ summary : Summary, summary.HasClearHead →
      read (Text.linesUnder failureHeading summary.toText) = summary.failures := by
  have hwrapped : (ofFindings wrappedFailure).HasClearHead := by decide +kernel
  have htwo : (ofFindings twoFailures).HasClearHead := by decide +kernel
  have hsame : Text.linesUnder failureHeading (ofFindings wrappedFailure).toText =
      Text.linesUnder failureHeading (ofFindings twoFailures).toText := by decide +kernel
  constructor
  · intro h
    have hlines := congrArg List.length (h _ hwrapped)
    revert hlines
    decide +kernel
  · rintro ⟨read, hread⟩
    have hfailures : (ofFindings wrappedFailure).failures = (ofFindings twoFailures).failures := by
      rw [← hread _ hwrapped, ← hread _ htwo, hsame]
    exact absurd (congrArg List.length hfailures) (by decide)

end Summary

/-! ### The failures of a run -/

namespace Outcome

variable {outcome : Outcome}

/-- Neither paths nor the kinds of errors hold a line end. -/
theorem isOnOneLine_finding : outcome.finding.IsOnOneLine ↔
    CodeUnit.ofChar '\n' ∉ outcome.step.units ∧
      ∀ info, outcome.error = some info → CodeUnit.ofChar '\n' ∉ info.message.units := by
  have hpath : CodeUnit.ofChar '\n' ∉ outcome.path.units :=
    Place.notMem_toText (by decide) (by decide) (fun side ↦ by cases side <;> decide) outcome.place
  have hkind : ∀ kind : FaultKind, CodeUnit.ofChar '\n' ∉ (kind.name ++ " - ").units :=
    fun kind ↦ by cases kind <;> decide
  have hdetail : CodeUnit.ofChar '\n' ∉ outcome.finding.detail.units ↔
      ∀ info, outcome.error = some info → CodeUnit.ofChar '\n' ∉ info.message.units := by
    have hwords : outcome.finding.error = outcome.error.map FaultReport.words := rfl
    rw [Finding.detail, hwords]
    cases outcome.error with
    | none => exact iff_of_true (by decide) (by simp)
    | some info =>
      change CodeUnit.ofChar '\n' ∉ (info.kind.name ++ " - " ++ info.message).units ↔ _
      rw [Text.units_append, List.mem_append, not_or, and_iff_right (hkind info.kind)]
      exact ⟨fun h _ heq ↦ Option.some.inj heq ▸ h, fun h ↦ h info rfl⟩
  exact ⟨fun h ↦ ⟨h.step, hdetail.mp h.detail⟩, fun h ↦ ⟨hpath, h.1, hdetail.mpr h.2⟩⟩

/-- Neither paths nor the kinds of errors hold a mark: only the name of a step may. -/
theorem isLegible_finding : outcome.finding.IsLegible ↔
    (outcome.step ++ "\":").contains "\": " = false := by
  refine ⟨Finding.IsLegible.step, fun hstep ↦ ⟨?_, hstep, ?_⟩⟩
  · have hquote : CodeUnit.ofChar '"' ∉ outcome.path.units :=
      Place.notMem_toText (by decide) (by decide) (fun side ↦ by cases side <;> decide)
        outcome.place
    refine Text.contains_eq_false_iff.mpr fun hwithin ↦ ?_
    have hmem : CodeUnit.ofChar '"' ∈ outcome.path.units ++ (Text.ofString " ").units :=
      hwithin.subset (by decide)
    exact (List.not_mem_append hquote (by decide)) hmem
  · rintro _ _ herror
    obtain ⟨info, -, hwords⟩ := Option.map_eq_some_iff.mp herror
    obtain ⟨rfl, -⟩ := Prod.mk.inj hwords
    cases info.kind <;> decide

end Outcome

/-- The failures of a run are read back from its summary exactly where neither the name of a failed
step nor the message of its error holds a line end, and no name the mark that ends it. -/
theorem RunResult.readFailures?_summary (result : RunResult)
    (hhead : result.summary.HasClearHead) :
    Summary.readFailures? (Text.linesUnder Summary.failureHeading result.summary.toText) =
        some result.summary.failures ↔
      ∀ outcome ∈ result.outcomes, outcome.status = .failed →
        (CodeUnit.ofChar '\n' ∉ outcome.step.units ∧
          ∀ info, outcome.error = some info → CodeUnit.ofChar '\n' ∉ info.message.units) ∧
        (outcome.step ++ "\":").contains "\": " = false := by
  have hfailures : ∀ finding, finding ∈ result.summary.failures ↔
      ∃ outcome ∈ result.outcomes, outcome.status = .failed ∧ outcome.finding = finding := by
    intro finding
    rw [Summary.failures, List.mem_filter]
    change finding ∈ result.outcomes.map Outcome.finding ∧ _ ↔ _
    rw [List.mem_map]
    constructor
    · rintro ⟨⟨outcome, houtcome, rfl⟩, hfailed⟩
      exact ⟨outcome, houtcome, by simpa [Finding.isFailed, Outcome.finding] using hfailed, rfl⟩
    · rintro ⟨outcome, houtcome, hfailed, rfl⟩
      exact ⟨⟨outcome, houtcome, rfl⟩, by simp [Finding.isFailed, Outcome.finding, hfailed]⟩
  rw [Summary.readFailures?_eq_some_iff hhead]
  constructor
  · intro h outcome houtcome hfailed
    obtain ⟨hwhole, hlegible⟩ :=
      h outcome.finding ((hfailures _).mpr ⟨outcome, houtcome, hfailed, rfl⟩)
    exact ⟨Outcome.isOnOneLine_finding.mp hwhole, Outcome.isLegible_finding.mp hlegible⟩
  · intro h finding hfinding
    obtain ⟨outcome, houtcome, hfailed, rfl⟩ := (hfailures finding).mp hfinding
    obtain ⟨hwhole, hlegible⟩ := h outcome houtcome hfailed
    exact ⟨Outcome.isOnOneLine_finding.mpr hwhole, Outcome.isLegible_finding.mpr hlegible⟩

end BrowserFlow
