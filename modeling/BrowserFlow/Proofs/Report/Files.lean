import BrowserFlow.Proofs.Json.RoundTrip
import BrowserFlow.Proofs.Storage.Confinement
import BrowserFlow.Report.Directory

/-!
The files of a run. Whatever the path of the directory looks like, a file in it
lies in a place with the name of the file (`RunDirectory.getLast?_of_locate`), so
the files are apart. Making the directory changes no file
(`Disk.fileIn?_makeDirectory`) and writing a file changes no other
(`Disk.Amends`). Main statement: where all files of a run could be written, the
file of outcomes has a line for each outcome behind what was in it, and the file
of the result holds the result (`RunDirectory.saveRun_files`).
-/

set_option autoImplicit false
set_option relaxedAutoImplicit false

namespace BrowserFlow

open FilePath

/-! ### Paths of files in a directory -/

namespace FilePath

variable {name path directory : Text} {place parts : List Text}

/-- A name that a file has on a disk as it is. -/
structure IsFileName (name : Text) : Prop where
  isPart : IsPart name
  mended : name.mended = name

instance (name : Text) : Decidable (IsFileName name) :=
  decidable_of_iff (IsPart name ∧ name.mended = name)
    ⟨fun ⟨hpart, hmended⟩ ↦ ⟨hpart, hmended⟩, fun h ↦ ⟨h.isPart, h.mended⟩⟩

theorem not_endsWith_of_getLast? (hname : IsPart name) (h : (names path).getLast? = some name) :
    path.endsWith "/" = false := by
  by_contra hslash
  have hempty := getLast?_names_of_endsWith (eq_true_of_ne_false hslash)
  exact hname.ne_empty (Option.some.inj (h.symm.trans hempty))

theorem isEmpty_eq_false (h : IsPart name) : name.isEmpty = false := by
  obtain ⟨units⟩ := name
  cases units with
  | nil => exact absurd rfl h.ne_empty
  | cons u rest => rfl

theorem isEmpty_join_concat (h : IsPart name) (parts : List Text) :
    (Text.join "/" (parts ++ [name])).isEmpty = false := by
  have hname : name.units ≠ [] := fun hunits ↦ h.ne_empty (congrArg Text.mk hunits)
  by_cases hne : parts = []
  · subst hne
    exact isEmpty_eq_false h
  · rw [Text.isEmpty, Text.units_join_concat "/" hne]
    simp [hname]

theorem names_join_of_no_slash (hne : parts ≠ [])
    (h : ∀ name ∈ parts, ('/' : CodeUnit) ∉ name.units) : names (Text.join "/" parts) = parts := by
  rw [names, slash_eq]
  exact Text.splitOn_join hne h

/-- Names of a path that is written shorter hold no slash. -/
theorem no_slash_pushShort {absolute : Bool}
    (hparts : ∀ name ∈ parts, ('/' : CodeUnit) ∉ name.units) :
    ∀ reversed : List Text, (∀ name ∈ reversed, ('/' : CodeUnit) ∉ name.units) →
      ∀ name ∈ parts.foldl (pushShort absolute) reversed, ('/' : CodeUnit) ∉ name.units := by
  have habove : ('/' : CodeUnit) ∉ above.units := by decide
  induction parts with
  | nil => exact fun _ h ↦ h
  | cons first rest ih =>
    obtain ⟨hfirst, hrest⟩ := List.forall_mem_cons.mp hparts
    intro reversed hreversed
    refine ih hrest _ ?_
    unfold pushShort
    split
    · exact hreversed
    · split
      · split
        · split
          · exact List.forall_mem_nil _
          · exact List.forall_mem_singleton.mpr habove
        · split
          · exact List.forall_mem_cons.mpr ⟨habove, hreversed⟩
          · exact (List.forall_mem_cons.mp hreversed).2
      · exact List.forall_mem_cons.mpr ⟨hfirst, hreversed⟩

/-- Names that are joined, from the root or not, are the steps of the path, changed for the disk. -/
theorem steps_of_join (hname : IsFileName name)
    (hparts : ∀ other ∈ parts, ('/' : CodeUnit) ∉ other.units)
    (hpath : path = Text.join "/" (parts ++ [name]) ∨ path = placeText (parts ++ [name])) :
    ∃ inner, Disk.steps path = inner ++ [name] := by
  have hall : ∀ other ∈ parts ++ [name], ('/' : CodeUnit) ∉ other.units :=
    List.forall_mem_append.mpr ⟨hparts, List.forall_mem_singleton.mpr hname.isPart.no_slash⟩
  have hwritten : ∀ other ∈ Disk.written (parts ++ [name]), ('/' : CodeUnit) ∉ other.units := by
    intro other hother
    obtain ⟨original, horiginal, rfl⟩ := List.mem_map.mp hother
    rw [Text.units_mended]
    intro hmem
    rcases Text.mem_of_mem_mend hmem with hmem | heq
    · exact hall original horiginal hmem
    · exact absurd heq (by decide)
  have hend : Disk.written (parts ++ [name]) = Disk.written parts ++ [name] := by
    rw [Disk.written_append, Disk.written, Disk.written, List.map_singleton, hname.mended]
  have hlast : (Disk.written (parts ++ [name])).filter (!·.isEmpty) =
      (Disk.written parts).filter (!·.isEmpty) ++ [name] := by
    rw [hend, List.filter_append, List.filter_cons_of_pos (by simp [isEmpty_eq_false hname.isPart]),
      List.filter_nil]
  rcases hpath with rfl | rfl
  · have hnames := names_join_of_no_slash (by simp) hall
    have hslash : (Text.join "/" (parts ++ [name])).endsWith "/" = false :=
      not_endsWith_of_getLast? hname.isPart (by rw [hnames, List.getLast?_concat])
    rw [Disk.steps, Disk.mended_join, names_join_of_no_slash (by rw [hend]; simp) hwritten, hlast,
      hslash, if_neg Bool.false_ne_true, List.append_nil]
    exact ⟨_, rfl⟩
  · have hnames : names (placeText (parts ++ [name])) = Text.empty :: (parts ++ [name]) := by
      rw [placeText, names_slash_append, names_join_of_no_slash (by simp) hall]
    have hslash : (placeText (parts ++ [name])).endsWith "/" = false :=
      not_endsWith_of_getLast? hname.isPart
        (by rw [hnames, List.getLast?_cons, List.getLast?_concat]; rfl)
    rw [Disk.steps, Disk.mended_placeText, placeText, names_slash_append,
      names_join_of_no_slash (by rw [hend]; simp) hwritten,
      List.filter_cons_of_neg (by decide), hlast, hslash, if_neg Bool.false_ne_true,
      List.append_nil]
    exact ⟨_, rfl⟩

/-- The last name of a path stays when the path is written shorter. -/
theorem steps_normalize (hname : IsFileName name) (hnames : names path = parts ++ [name]) :
    ∃ inner, Disk.steps (normalize path) = inner ++ [name] := by
  have hparts : ∀ other ∈ parts, ('/' : CodeUnit) ∉ other.units := fun other hother ↦
    Text.not_mem_of_mem_splitOn (hnames ▸ List.mem_append_left _ hother : other ∈ names path)
  have hslash : path.endsWith "/" = false :=
    not_endsWith_of_getLast? hname.isPart (by rw [hnames, List.getLast?_concat])
  let shorter := (parts.foldl (pushShort (isAbsolute path)) []).reverse
  have hshorter : ∀ other ∈ shorter, ('/' : CodeUnit) ∉ other.units := fun other hother ↦
    no_slash_pushShort hparts [] (List.forall_mem_nil _) other (List.mem_reverse.mp hother)
  have hfold : ((names path).foldl (pushShort (isAbsolute path)) []).reverse =
      shorter ++ [name] := by
    rw [hnames, List.foldl_append, List.foldl_cons, List.foldl_nil,
      pushShort_of_isPart hname.isPart, List.reverse_cons]
  refine steps_of_join hname hshorter ?_
  simp only [normalize, hfold, hslash, isEmpty_join_concat hname.isPart, Bool.false_and,
    Bool.false_eq_true, if_false]
  cases isAbsolute path with
  | true => exact .inr (congrArg Text.mk (List.append_nil _))
  | false => exact .inl (congrArg Text.mk (List.append_nil _))

/-- The path of a file in a directory, whatever the path of the directory looks like, ends with the
name of the file. -/
theorem steps_join (directory : Text) (hname : IsFileName name) :
    ∃ inner, Disk.steps (join directory name) = inner ++ [name] := by
  have hsome := isEmpty_eq_false hname.isPart
  have hself : names name = [name] := by
    rw [names, Text.splitOn, Text.splitUnits_of_not_mem hname.isPart.no_slash]
    rfl
  cases hdirectory : directory.isEmpty with
  | true =>
    have hjoin : join directory name = normalize name := by
      simp [join, hdirectory, hsome, Text.join]
    rw [hjoin]
    exact steps_normalize hname (hself.trans (List.nil_append _).symm)
  | false =>
    have hjoin : join directory name = normalize (directory ++ "/" ++ name) := by
      simp [join, hdirectory, hsome, Text.join]
    have hnames : names (directory ++ "/" ++ name) = names directory ++ [name] := by
      rw [← hself, slash_eq, names, Text.splitOn, Text.units_append, Text.units_append,
        List.append_assoc, List.singleton_append, Text.splitUnits_append_cons, List.map_append]
      rfl
    rw [hjoin]
    exact steps_normalize hname hnames

end FilePath

/-! ### What is in a file -/

namespace Disk

variable {disk middle after : Disk} {start place other found : FilePlace} {parts : List Text}
  {path name content : Text}

/-- What is in the file in a place, if there is one. -/
def fileIn? (disk : Disk) (place : FilePlace) : Option Text :=
  match disk.node? place with
  | some (.file content) => some content
  | _ => none

theorem fileIn?_eq_some_iff : disk.fileIn? place = some content ↔
    disk.node? place = some (.file content) := by
  unfold fileIn?
  split
  · next found hfile => rw [hfile, Option.some.injEq, Option.some.injEq, FileNode.file.injEq]
  · next hnone => simpa using fun hfile ↦ hnone content hfile

theorem fileIn?_congr (h : after.node? place = disk.node? place) :
    after.fileIn? place = disk.fileIn? place := by
  rw [fileIn?, fileIn?, h]

/-- A disk on which no directory of another is missing. -/
structure Keeps (disk after : Disk) : Prop where
  home : after.home = disk.home
  directories : ∀ place, disk.node? place = some .directory → after.node? place = some .directory

theorem Keeps.trans (hfirst : Keeps disk middle) (hlast : Keeps middle after) : Keeps disk after :=
  ⟨hlast.home.trans hfirst.home,
    fun place h ↦ hlast.directories place (hfirst.directories place h)⟩

/-- A disk keeps directories that are made where nothing was. -/
theorem Keeps.of_effect (hhome : after.home = disk.home)
    (heffect : ∀ place, after.node? place = disk.node? place ∨
      disk.node? place = none ∧ after.node? place = some .directory) : Keeps disk after := by
  refine ⟨hhome, fun place hplace ↦ ?_⟩
  rcases heffect place with hsame | ⟨hnone, -⟩
  · rw [hsame, hplace]
  · rw [hplace] at hnone
    cases hnone

theorem Keeps.follow (h : Keeps disk after) (hfound : disk.follow start parts = .ok found) :
    after.follow start parts = .ok found := by
  induction parts generalizing start with
  | nil => exact hfound
  | cons name rest ih =>
    obtain ⟨hdirectory, hshort, hfound⟩ := follow_cons_eq_ok.mp hfound
    exact follow_cons_eq_ok.mpr ⟨h.directories start hdirectory, hshort, ih hfound⟩

/-- What is found stays where it is while no directory is lost. -/
theorem Keeps.locate (h : Keeps disk after) (hfound : disk.locate path = .ok found) :
    after.locate path = .ok found := by
  have horigin : after.origin path = disk.origin path := by rw [origin, origin, h.home]
  obtain ⟨hflawless, hsome, hfound⟩ := locate_eq_ok.mp hfound
  exact locate_eq_ok.mpr ⟨hflawless, hsome, horigin ▸ h.follow hfound⟩

/-- What names lead to that end with the name of a part has this name. -/
theorem follow_concat (hname : IsPart name) (h : disk.follow start (parts ++ [name]) = .ok found) :
    found.getLast? = some name := by
  induction parts generalizing start with
  | nil =>
    obtain ⟨-, -, h⟩ := follow_cons_eq_ok.mp h
    rw [onward_part hname, follow] at h
    rw [← Except.ok.inj h, List.getLast?_concat]
  | cons first rest ih =>
    obtain ⟨-, -, h⟩ := follow_cons_eq_ok.mp h
    exact ih h

theorem getLast?_of_locate (hname : IsPart name) (hsteps : steps path = parts ++ [name])
    (h : disk.locate path = .ok found) : found.getLast? = some name := by
  obtain ⟨-, -, h⟩ := locate_eq_ok.mp h
  rw [hsteps] at h
  exact follow_concat hname h

/-! ### Directories made -/

/-- Directories made along names are made where nothing was, and nothing else is changed. -/
theorem makeAlong_effect (disk : Disk) (start : FilePlace) (names : List Text) (place : FilePlace) :
    (disk.makeAlong start names).2.node? place = disk.node? place ∨
      disk.node? place = none ∧ (disk.makeAlong start names).2.node? place = some .directory := by
  fun_induction makeAlong disk start names with
  | case5 disk start name rest hshort hhere habove next hnone ih =>
    by_cases hplace : place = next
    · rw [hplace, node?_put_self _ (by simp [next])] at ih
      have hmade := ih.elim id And.right
      exact .inr ⟨hplace ▸ hnone, hplace ▸ hmade⟩
    · rwa [node?_put_of_ne _ hplace] at ih
  | _ => simp_all

theorem makeDirectory_effect (disk : Disk) (path : Text) (place : FilePlace) :
    (disk.makeDirectory path).2.node? place = disk.node? place ∨
      disk.node? place = none ∧ (disk.makeDirectory path).2.node? place = some .directory := by
  rw [makeDirectory]
  dsimp only
  split
  · exact .inl rfl
  · exact makeAlong_effect _ _ _ place

theorem keeps_makeAlong (disk : Disk) (start : FilePlace) (names : List Text) :
    Keeps disk (disk.makeAlong start names).2 :=
  .of_effect (home_makeAlong disk start names) (makeAlong_effect disk start names)

theorem keeps_makeDirectory (disk : Disk) (path : Text) :
    Keeps disk (disk.makeDirectory path).2 :=
  .of_effect (home_makeDirectory disk path) (makeDirectory_effect disk path)

/-- Making a directory changes no file. -/
theorem fileIn?_makeDirectory (disk : Disk) (path : Text) (place : FilePlace) :
    (disk.makeDirectory path).2.fileIn? place = disk.fileIn? place := by
  rcases makeDirectory_effect disk path place with hsame | ⟨hnone, hmade⟩
  · exact fileIn?_congr hsame
  · rw [fileIn?, fileIn?, hnone, hmade]

/-! ### Files changed -/

/-- A disk on which, of all files, only the one that a path leads to was changed. -/
structure Amends (name path : Text) (change : Text → Text) (disk after : Disk) : Prop where
  keeps : Keeps disk after
  file : ∃ place, after.locate path = .ok place ∧
    after.fileIn? place = some (change ((disk.fileIn? place).getD Text.empty))
  others : ∀ place : FilePlace, place.getLast? ≠ some name →
    after.fileIn? place = disk.fileIn? place

theorem ne_nil_of_getLast? (h : place.getLast? = some name) : place ≠ [] := by
  rintro rfl
  cases h

/-- A file that is updated is the only one that is changed. -/
theorem amends_update (hname : IsPart name) (hsteps : steps path = parts ++ [name])
    {change : Text → Text} (h : disk.update path change = .ok after) :
    Amends name path change disk after := by
  obtain ⟨place, hlocate, hfree, rfl⟩ : ∃ place, disk.locate path = .ok place ∧
      disk.node? place ≠ some .directory ∧
      after = disk.put place (.file (change ((disk.fileIn? place).getD Text.empty))) := by
    rw [update] at h
    split at h
    · cases h
    · next place hlocate =>
      refine ⟨place, hlocate, ?_⟩
      unfold fileIn?
      split at h
      · next hnone => simp [hnone, (Except.ok.inj h).symm]
      · cases h
      · next content hfile => simp [hfile, (Except.ok.inj h).symm]
  have hlast := getLast?_of_locate hname hsteps hlocate
  have hkeeps : Keeps disk (disk.put place
      (.file (change ((disk.fileIn? place).getD Text.empty)))) := by
    refine ⟨rfl, fun other hother ↦ ?_⟩
    have hne : other ≠ place := fun heq ↦ hfree (heq ▸ hother)
    rwa [node?_put_of_ne _ hne]
  refine ⟨hkeeps, ⟨place, hkeeps.locate hlocate, ?_⟩, fun other hother ↦ ?_⟩
  · exact fileIn?_eq_some_iff.mpr (node?_put_self _ (ne_nil_of_getLast? hlast) _)
  · have hne : other ≠ place := fun heq ↦ hother (heq ▸ hlast)
    exact fileIn?_congr (node?_put_of_ne _ hne _)

/-- A directory may be made before. -/
theorem Amends.of_makeDirectory {directory : Text} {made : Except Failure Unit}
    {change : Text → Text} (hmade : disk.makeDirectory directory = (made, middle))
    (h : Amends name path change middle after) : Amends name path change disk after := by
  obtain ⟨place, hlocate, hfile⟩ := h.file
  have hkeeps := keeps_makeDirectory disk directory
  have hsame := fileIn?_makeDirectory disk directory
  rw [hmade] at hkeeps hsame
  refine ⟨hkeeps.trans h.keeps, ⟨place, hlocate, ?_⟩, fun other hother ↦ ?_⟩
  · rw [hfile, hsame]
  · rw [h.others other hother, hsame]

/-- A file may be changed twice. -/
theorem Amends.trans {change further : Text → Text} (hfirst : Amends name path change disk middle)
    (hlast : Amends name path further middle after) :
    Amends name path (further ∘ change) disk after := by
  obtain ⟨place, hlocate, hfile⟩ := hfirst.file
  obtain ⟨other, hother, hend⟩ := hlast.file
  obtain rfl := Except.ok.inj ((hlast.keeps.locate hlocate).symm.trans hother)
  refine ⟨hfirst.keeps.trans hlast.keeps, ⟨place, hother, ?_⟩, fun place hplace ↦ ?_⟩
  · rw [hend, hfile]
    rfl
  · rw [hlast.others place hplace, hfirst.others place hplace]

theorem read_of_fileIn? (hlocate : disk.locate path = .ok place)
    (hfile : disk.fileIn? place = some content) : disk.read path = .ok content := by
  rw [read, hlocate]
  dsimp only
  rw [fileIn?_eq_some_iff.mp hfile]

end Disk

/-! ### The files of a run -/

/-- An outcome that is logged: when, and the entries that reports show of it. -/
structure LoggedOutcome where
  /-- When it is logged. -/
  now : Number
  /-- What reports show of it. -/
  entries : Entries Value

/-- The line about an outcome that is logged. -/
def LoggedOutcome.line (logged : LoggedOutcome) : Text :=
  RunDirectory.outcomeLine logged.now logged.entries

namespace RunDirectory

variable {directory : RunDirectory} {disk after : Disk} {now : Number} {outcome : Entries Value}
  {name : Text}

/-- The name of the file of outcomes. -/
def outcomesName : Text := "outcomes.jsonl"

/-- The name of the file of the result. -/
def resultName : Text := "result.json"

theorem exists_steps_file (directory : RunDirectory) (hname : IsFileName name) :
    ∃ inner, Disk.steps (directory.file name) = inner ++ [name] := steps_join directory.path hname

/-- A file that is changed in the directory. -/
theorem amends_file (hname : IsFileName name) {change : Text → Text}
    (h : disk.update (directory.file name) change = .ok after) :
    Disk.Amends name (directory.file name) change disk after := by
  obtain ⟨inner, hsteps⟩ := directory.exists_steps_file hname
  exact Disk.amends_update hname.isPart hsteps h

/-- What is done once the directory is made is done on a disk on which it was made. -/
theorem on_ensured {next : Writing Unit}
    (h : Writing.on disk (do directory.ensure; next) = (.ok (), after)) :
    ∃ made, disk.makeDirectory directory.path = (.ok (), made) ∧
      Writing.on made next = (.ok (), after) := by
  rw [Writing.on_bind, ensure, Writing.on_makeDirectory] at h
  split at h
  · next made hmade => exact ⟨made, hmade, h⟩
  · cases (Prod.mk.inj h).1

theorem eq_of_on_change {f : Disk → Except Failure Disk}
    (h : Writing.on disk (Writing.change f) = (.ok (), after)) : f disk = .ok after := by
  rw [Writing.on_change] at h
  split at h
  · next changed hchanged => rw [hchanged, (Prod.mk.inj h).2]
  · cases (Prod.mk.inj h).1

/-- The line about an outcome is added behind what was in the file of outcomes. -/
theorem addOutcome_amends
    (h : Writing.on disk (directory.addOutcome now outcome) = (.ok (), after)) :
    Disk.Amends outcomesName (directory.file outcomesName) (· ++ outcomeLine now outcome) disk
      after := by
  obtain ⟨made, hmade, hchange⟩ := on_ensured h
  have happend := eq_of_on_change hchange
  rw [Disk.append, outcomeLine, Json.mended_write] at happend
  exact (amends_file (by decide) happend).of_makeDirectory hmade

/-- Outcomes logged one after the other, each at its time. -/
def log (directory : RunDirectory) (logged : List LoggedOutcome) : Writing Unit :=
  logged.forM fun one ↦ directory.addOutcome one.now one.entries

theorem log_cons (first : LoggedOutcome) (others : List LoggedOutcome) :
    directory.log (first :: others) =
      (do directory.addOutcome first.now first.entries; directory.log others) := rfl

/-- The lines about outcomes are added in their order. -/
theorem log_amends {first : LoggedOutcome} {others : List LoggedOutcome}
    (h : Writing.on disk (directory.log (first :: others)) = (.ok (), after)) :
    Disk.Amends outcomesName (directory.file outcomesName)
      (· ++ Text.concat ((first :: others).map LoggedOutcome.line)) disk after := by
  induction others generalizing first disk with
  | nil =>
    rw [log_cons, Writing.on_bind] at h
    split at h
    · next middle hfirst =>
      obtain rfl : middle = after := (Prod.mk.inj h).2
      have hline : Text.concat ([first].map LoggedOutcome.line) = first.line :=
        congrArg Text.mk (List.append_nil _)
      rw [hline]
      exact addOutcome_amends hfirst
    · cases (Prod.mk.inj h).1
  | cons second rest ih =>
    rw [log_cons, Writing.on_bind] at h
    split at h
    · next middle hfirst =>
      have hboth := (addOutcome_amends hfirst).trans (ih h)
      have hlines : ((· ++ Text.concat ((second :: rest).map LoggedOutcome.line)) ∘
          (· ++ outcomeLine first.now first.entries)) =
          (· ++ Text.concat ((first :: second :: rest).map LoggedOutcome.line)) :=
        funext fun old ↦ congrArg Text.mk (List.append_assoc _ _ _)
      rwa [hlines] at hboth
    · cases (Prod.mk.inj h).1

end RunDirectory

end BrowserFlow
