import BrowserFlow.Proofs.Storage.Paths
import BrowserFlow.Proofs.Text.Mended

/-!
What the written form of a place leads to on a disk. The names on a disk are those
of the place, each with its unpaired surrogates replaced (`Disk.steps_placeText`):
such a name is still the name of one place further (`Disk.isPlace_written`), so
where the path can be followed it leads to the place as it is on the disk
(`Disk.locate_placeText`). Directories made along it are the only change
(`Disk.node?_makeDirectory`), and so is the file written there
(`Disk.update_placeText`).
-/

set_option autoImplicit false
set_option relaxedAutoImplicit false

namespace BrowserFlow.Disk

open FilePath

variable {disk after : Disk} {place other start found parts : FilePlace} {name path : Text}
  {node : FileNode}

/-! ### Nodes -/

theorem node?_nil (disk : Disk) : disk.node? [] = some .directory := rfl

theorem findNode_filter (nodes : List (FilePlace × FileNode)) (h : other ≠ place) :
    findNode other (nodes.filter fun entry ↦ entry.1 != place) = findNode other nodes := by
  induction nodes with
  | nil => rfl
  | cons entry rest ih =>
    by_cases hentry : entry.1 = place
    · have hne : entry.1 ≠ other := fun heq ↦ h (heq.symm.trans hentry)
      rw [List.filter_cons_of_neg (by simp [hentry]), findNode, if_neg hne, ih]
    · rw [List.filter_cons_of_pos (by simpa using hentry), findNode, findNode, ih]

theorem node?_put_self (disk : Disk) (hne : place ≠ []) (node : FileNode) :
    (disk.put place node).node? place = some node := by
  simp [node?, put, hne, findNode]

/-- What is put into one place leaves the others alone. -/
theorem node?_put_of_ne (disk : Disk) (h : other ≠ place) (node : FileNode) :
    (disk.put place node).node? other = disk.node? other := by
  unfold node?
  split
  · rfl
  · rw [put, findNode, if_neg h.symm, findNode_filter disk.nodes h]

/-! ### Names as they are on a disk -/

theorem written_append (place parts : FilePlace) :
    written (place ++ parts) = written place ++ written parts := List.map_append

theorem written_eq_nil_iff : written place = [] ↔ place = [] := List.map_eq_nil_iff

/-- A name that was changed for the disk is still the name of one place further. -/
theorem isPart_mended (h : IsPart name) : IsPart name.mended := by
  have hslash : ('/' : CodeUnit) ∉ name.mended.units := by
    rw [Text.units_mended]
    intro hmem
    rcases Text.mem_of_mem_mend hmem with hmem | heq
    · exact h.no_slash hmem
    · exact absurd heq (by decide)
  rcases Text.mend_eq_or_mem name.units with heq | hmem
  · have hname : name.mended = name := congrArg Text.mk ((Text.units_mended name).trans heq)
    rwa [hname]
  · rw [← Text.units_mended] at hmem
    refine ⟨?_, ?_, ?_, hslash⟩ <;>
    · intro heq
      rw [heq] at hmem
      revert hmem
      decide

theorem isPlace_written (h : IsPlace place) : IsPlace (written place) := by
  intro name hmem
  obtain ⟨original, horiginal, rfl⟩ := List.mem_map.mp hmem
  exact isPart_mended (h original horiginal)

theorem mended_append_slash (first second : Text) :
    (first ++ "/" ++ second).mended = first.mended ++ "/" ++ second.mended := by
  have hslash : ('/' : CodeUnit).isSurrogate = false := by decide
  have hunits : (first ++ "/" ++ second).mended.units
      = (first.mended ++ "/" ++ second.mended).units := by
    simp only [slash_eq, Text.units_mended, Text.units_append, List.append_assoc,
      List.singleton_append, Text.mend_append_cons hslash]
  exact congrArg Text.mk hunits

theorem mended_join (parts : List Text) :
    (Text.join "/" parts).mended = Text.join "/" (written parts) := by
  induction parts with
  | nil => rfl
  | cons first others ih =>
    cases others with
    | nil => rfl
    | cons second rest =>
      rw [Text.join_cons_cons, mended_append_slash, ih]
      rfl

/-- The written form of a place is changed for the disk name by name. -/
theorem mended_placeText (place : FilePlace) :
    (placeText place).mended = placeText (written place) := by
  have h := mended_append_slash Text.empty (Text.join "/" place)
  rw [mended_join] at h
  exact h

/-- The names that the written form of a place has on a disk. -/
theorem steps_placeText (hne : place ≠ []) (hplace : IsPlace place) :
    steps (placeText place) = written place := by
  have hwritten := isPlace_written hplace
  have hsome : ∀ name ∈ written place, (!name.isEmpty) = true := by
    intro name hmem
    have hempty := (hwritten name hmem).ne_empty
    cases name with
    | mk units => cases units <;> simp_all [Text.isEmpty, Text.empty]
  rw [steps, mended_placeText, names_placeText (mt written_eq_nil_iff.mp hne) hwritten,
    not_endsWith_placeText hne hplace, if_neg Bool.false_ne_true, List.append_nil,
    List.filter_cons_of_neg (by decide), List.filter_eq_self.mpr hsome]

theorem steps_placeText_nil : steps (placeText []) = [here] := by decide

theorem origin_placeText (disk : Disk) (place : FilePlace) :
    disk.origin (placeText place) = [] := by
  rw [origin, if_pos (isAbsolute_placeText place)]

/-! ### Following a path -/

/-- The place that a name leads to from another place. -/
def onward (start : FilePlace) (name : Text) : FilePlace :=
  if name = here then start else if name = above then start.dropLast else start ++ [name]

theorem onward_part (hname : IsPart name) : onward start name = start ++ [name] := by
  rw [onward, if_neg hname.ne_here, if_neg hname.ne_above]

/-- A name is followed from a directory, unless it is too long. -/
theorem follow_cons_eq_ok : disk.follow start (name :: parts) = .ok found ↔
    disk.node? start = some .directory ∧ isTooLong name = false ∧
      disk.follow (onward start name) parts = .ok found := by
  rw [follow]
  rcases hnode : disk.node? start with _ | ⟨content⟩ | _
  · simp
  · simp
  · rw [onward, apply_ite (disk.follow · parts), apply_ite (disk.follow · parts)]
    cases isTooLong name <;> simp

/-- A path is located by following its names, unless it has a flaw or is empty. -/
theorem locate_eq_ok : disk.locate path = .ok found ↔
    pathFlaw? path = none ∧ path.isEmpty = false ∧
      disk.follow (disk.origin path) (steps path) = .ok found := by
  rw [locate]
  cases pathFlaw? path with
  | some flaw => simp
  | none => cases hempty : path.isEmpty <;> simp

theorem follow_eq_ok (hparts : IsPlace parts) (h : disk.follow start parts = .ok found) :
    found = start ++ parts := by
  induction parts generalizing start with
  | nil =>
    rw [follow] at h
    rw [List.append_nil, Except.ok.inj h]
  | cons name rest ih =>
    obtain ⟨hname, hrest⟩ := List.forall_mem_cons.mp hparts
    obtain ⟨-, -, h⟩ := follow_cons_eq_ok.mp h
    rw [onward_part hname] at h
    rw [ih hrest h, List.append_assoc, List.singleton_append]

/-- Where the written form of a place can be followed, it leads to the place as it is on the
disk. -/
theorem locate_placeText (hplace : IsPlace place) (h : disk.locate (placeText place) = .ok found) :
    found = written place := by
  obtain ⟨-, -, h⟩ := locate_eq_ok.mp h
  rw [origin_placeText] at h
  by_cases hne : place = []
  · subst hne
    have hroot : disk.follow [] (steps (placeText [])) = .ok [] := by
      rw [steps_placeText_nil]
      rfl
    exact Except.ok.inj (h.symm.trans hroot)
  · rw [steps_placeText hne hplace] at h
    exact follow_eq_ok (isPlace_written hplace) h

/-- A file changed through the written form of a place is put there and nowhere else. -/
theorem update_placeText (hplace : IsPlace place) {change : Text → Text}
    (h : disk.update (placeText place) change = .ok after) :
    ∃ content, after = disk.put (written place) (.file content) := by
  rw [update] at h
  split at h
  · cases h
  · next found hlocate =>
    rw [locate_placeText hplace hlocate] at h
    split at h
    · exact ⟨_, (Except.ok.inj h).symm⟩
    · cases h
    · exact ⟨_, (Except.ok.inj h).symm⟩

/-! ### Directories made along a path -/

theorem home_makeAlong (disk : Disk) (start : FilePlace) (names : List Text) :
    (disk.makeAlong start names).2.home = disk.home := by
  fun_induction makeAlong disk start names <;> simp_all [put]

/-- What making directories along names does to a place: nothing, or it was empty, lies on the way
and is a directory now. -/
theorem node?_makeAlong (hparts : IsPlace parts) (place : FilePlace) :
    (disk.makeAlong start parts).2.node? place = disk.node? place ∨
      (disk.node? place = none ∧ (disk.makeAlong start parts).2.node? place = some .directory ∧
        place <+: start ++ parts) := by
  induction parts generalizing disk start with
  | nil => exact .inl rfl
  | cons name rest ih =>
    obtain ⟨hname, hrest⟩ := List.forall_mem_cons.mp hparts
    have hway : start ++ name :: rest = (start ++ [name]) ++ rest := by simp
    rw [makeAlong, if_neg hname.ne_here, if_neg hname.ne_above]
    split
    · exact .inl rfl
    · dsimp only
      split
      · next hnone =>
        by_cases hplace : place = start ++ [name]
        · subst hplace
          rcases @ih (disk.put (start ++ [name]) .directory) (start ++ [name]) hrest with h | h
          · rw [node?_put_self _ (by simp)] at h
            exact .inr ⟨hnone, h, hway ▸ List.prefix_append _ _⟩
          · rw [node?_put_self _ (by simp)] at h
            exact absurd h.1 (by simp)
        · rw [hway, ← node?_put_of_ne disk hplace .directory]
          exact ih hrest
      · rw [hway]
        exact ih hrest
      · exact .inl rfl

theorem home_makeDirectory (disk : Disk) (path : Text) :
    (disk.makeDirectory path).2.home = disk.home := by
  rw [makeDirectory]
  dsimp only
  split
  · rfl
  · exact home_makeAlong _ _ _

/-- What making a directory and all that lead to it does to a place: nothing, or it was empty, lies
on the way and is a directory now. -/
theorem node?_makeDirectory (hplace : IsPlace place) (other : FilePlace) :
    (disk.makeDirectory (placeText place)).2.node? other = disk.node? other ∨
      (disk.node? other = none ∧
        (disk.makeDirectory (placeText place)).2.node? other = some .directory ∧
          other <+: written place) := by
  rw [makeDirectory]
  dsimp only
  split
  · exact .inl rfl
  · rw [origin_placeText]
    by_cases hne : place = []
    · subst hne
      rw [steps_placeText_nil]
      exact .inl rfl
    · rw [steps_placeText hne hplace]
      exact node?_makeAlong (isPlace_written hplace) other

end BrowserFlow.Disk
