import BrowserFlow.Proofs.Storage.Disks

/-!
Storage below a directory stays below it. A path is refused exactly when what it
means is the directory itself or does not lie below it, and a path that is taken
means a place whose written form is absolute and as short as can be. Saving
changes the disk below the directory, whether it succeeds or fails halfway; all
it may do elsewhere is to make the directory and what leads to it where they are
missing (`Disk.ChangesBelow`). Loading depends on the files below the directory and
on whether the way to it is there (`Disk.AlikeBelow`). Main statement:
`JsonFiles.confines`.

Scope. A disk has no symbolic links: a place is one file.
-/

set_option autoImplicit false
set_option relaxedAutoImplicit false

namespace BrowserFlow

open FilePath

namespace FileNode

/-- Whether a node is a directory. -/
def isDirectory : FileNode → Bool
  | .directory => true
  | .file _ => false

end FileNode

namespace Disk

variable {base place start parts : FilePlace} {before middle after disk : Disk} {path : Text}

/-! ### Changes below a place -/

/-- The only changes lie below a place; elsewhere, directories that are missing on the way to it may
have been made. -/
structure ChangesBelow (base : FilePlace) (before after : Disk) : Prop where
  /-- Relative paths begin where they began. -/
  home : after.home = before.home
  /-- What does not lie below the place is as it was, or it is a new directory on the way. -/
  node : ∀ place, ¬ IsBelow base place → after.node? place = before.node? place ∨
    (place <+: base ∧ before.node? place = none ∧ after.node? place = some .directory)

theorem ChangesBelow.refl (base : FilePlace) (disk : Disk) : ChangesBelow base disk disk :=
  ⟨rfl, fun _ _ ↦ .inl rfl⟩

theorem ChangesBelow.trans (hfirst : ChangesBelow base before middle)
    (hlast : ChangesBelow base middle after) : ChangesBelow base before after := by
  refine ⟨hlast.home.trans hfirst.home, fun place houtside ↦ ?_⟩
  rcases hfirst.node place houtside with hfirst | ⟨hway, hnone, hfirst⟩
  · rw [← hfirst]
    exact hlast.node place houtside
  · rcases hlast.node place houtside with hlast | ⟨-, hlast, -⟩
    · exact .inr ⟨hway, hnone, hlast.trans hfirst⟩
    · rw [hfirst] at hlast
      exact absurd hlast (by simp)

/-- A file in a place that does not lie below is as it was, and no other file is there. -/
theorem ChangesBelow.file_iff (h : ChangesBelow base before after) (houtside : ¬ IsBelow base place)
    (content : Text) :
    after.node? place = some (.file content) ↔ before.node? place = some (.file content) := by
  rcases h.node place houtside with heq | ⟨-, hnone, hmade⟩
  · rw [heq]
  · simp [hnone, hmade]

theorem changesBelow_put (hbelow : IsBelow base place) (node : FileNode) :
    ChangesBelow base disk (disk.put place node) := by
  refine ⟨rfl, fun other houtside ↦ .inl (node?_put_of_ne disk ?_ node)⟩
  rintro rfl
  exact houtside hbelow

/-- A directory made below a place, or the place itself made, is a change below it. -/
theorem changesBelow_makeDirectory (hplace : IsPlace place) (hbase : base <+: written place) :
    ChangesBelow base disk (disk.makeDirectory (placeText place)).2 := by
  refine ⟨home_makeDirectory _ _, fun other houtside ↦ ?_⟩
  rcases node?_makeDirectory hplace other with h | ⟨hnone, hmade, hway⟩
  · exact .inl h
  · refine .inr ⟨?_, hnone, hmade⟩
    rcases List.prefix_or_prefix_of_prefix hway hbase with h | h
    · exact h
    · by_cases heq : base = other
      · exact heq ▸ List.prefix_rfl
      · exact absurd ⟨h, heq⟩ houtside

/-- What lies below a place lies below it on the disk. -/
theorem isBelow_written (h : IsBelow base place) : IsBelow (written base) (written place) := by
  obtain ⟨parts, hne, rfl⟩ := isBelow_iff.mp h
  rw [written_append]
  exact isBelow_append (mt written_eq_nil_iff.mp hne)

/-! ### Disks that are alike below a place -/

/-- The same lies below a place, and the way to it is the same, whatever the files on it hold. -/
structure AlikeBelow (base : FilePlace) (first second : Disk) : Prop where
  /-- The same lies below the place. -/
  below : ∀ place, IsBelow base place → first.node? place = second.node? place
  /-- On the way there are directories, files or nothing in the same places. -/
  way : ∀ place, place <+: base →
    (first.node? place).map FileNode.isDirectory = (second.node? place).map FileNode.isDirectory

variable {first second : Disk}

/-- On the way to what lies below, directories, files or nothing are in the same places. -/
theorem AlikeBelow.isDirectory (h : AlikeBelow base first second) {target : FilePlace}
    (hbelow : IsBelow base target) (hway : place <+: target) :
    (first.node? place).map FileNode.isDirectory
      = (second.node? place).map FileNode.isDirectory := by
  rcases List.prefix_or_prefix_of_prefix hway hbelow.1 with hup | hdown
  · exact h.way place hup
  · by_cases heq : base = place
    · exact h.way place (heq ▸ List.prefix_rfl)
    · rw [h.below place ⟨hdown, heq⟩]

/-- Names are followed alike where the way is the same. -/
theorem follow_congr (hparts : IsPlace parts)
    (h : ∀ place, place <+: start ++ parts →
      (first.node? place).map FileNode.isDirectory
        = (second.node? place).map FileNode.isDirectory) :
    first.follow start parts = second.follow start parts := by
  induction parts generalizing start with
  | nil => rfl
  | cons name rest ih =>
    obtain ⟨hname, hrest⟩ := List.forall_mem_cons.mp hparts
    have hnext : first.follow (start ++ [name]) rest = second.follow (start ++ [name]) rest :=
      ih hrest (by simpa using h)
    have hhere := h start (List.prefix_append _ _)
    rw [follow, follow, if_neg hname.ne_here, if_neg hname.ne_above, if_neg hname.ne_here,
      if_neg hname.ne_above, hnext]
    cases hfirst : first.node? start with
    | none => cases hsecond : second.node? start <;> simp_all
    | some node =>
      cases hsecond : second.node? start with
      | none => simp_all
      | some other => cases node <;> cases other <;> simp_all [FileNode.isDirectory]

theorem AlikeBelow.locate (h : AlikeBelow (written base) first second) (hbelow : IsBelow base place)
    (hplace : IsPlace place) :
    first.locate (placeText place) = second.locate (placeText place) := by
  have hne : place ≠ [] := by
    obtain ⟨parts, hparts, rfl⟩ := isBelow_iff.mp hbelow
    simp [hparts]
  have hfollow : first.follow [] (written place) = second.follow [] (written place) :=
    follow_congr (isPlace_written hplace) fun _ hway ↦
      h.isDirectory (isBelow_written hbelow) hway
  simp only [Disk.locate, origin_placeText, steps_placeText hne hplace, hfollow]

/-- A file below is read alike. -/
theorem AlikeBelow.read (h : AlikeBelow (written base) first second) (hbelow : IsBelow base place)
    (hplace : IsPlace place) : first.read (placeText place) = second.read (placeText place) := by
  rw [Disk.read, Disk.read, h.locate hbelow hplace]
  cases hlocate : second.locate (placeText place) with
  | error flaw => rfl
  | ok found =>
    obtain rfl := locate_placeText hplace hlocate
    simp only [h.below _ (isBelow_written hbelow)]

end Disk

namespace Writing

variable {α β : Type} {base place : FilePlace}

/-- One change after another: the second is made when the first was not refused. -/
theorem on_bind (disk : Disk) (first : Writing α) (next : α → Writing β) :
    on disk (first >>= next) =
      match on disk first with
      | (.ok result, after) => on after (next result)
      | (.error failure, after) => (.error failure, after) := by
  simp only [on, ExceptT.run_bind, StateT.run_bind]
  cases h : first.run.run disk with
  | mk result after => cases result <;> rfl

theorem on_change (disk : Disk) (f : Disk → Except Failure Disk) :
    on disk (change f) =
      match f disk with
      | .ok changed => (.ok (), changed)
      | .error failure => (.error failure, disk) := rfl

theorem on_makeDirectory (disk : Disk) (path : Text) :
    on disk (makeDirectory path) = disk.makeDirectory path := rfl

end Writing

namespace JsonFiles

variable {storage : JsonFiles} {path : Text} {target : FilePlace} {failure : Failure}

/-- The failure to use a path that does not lead below the base directory. -/
def outside (storage : JsonFiles) (path : Text) : Failure :=
  .plain none ("Storage path \"" ++ path ++ "\" resolves outside " ++ storage.baseText)

/-- A path is taken when what it means lies below the base directory. -/
theorem place_of_isBelow (hbase : IsPlace storage.base)
    (h : IsBelow storage.base (resolve storage.base path)) :
    storage.place path = .ok (resolve storage.base path) := by
  rw [place, if_pos ((staysBelow_relative_iff (isPlace_resolve hbase path)).mpr h)]

/-- A path is refused when what it means is the base directory or does not lie below it. -/
theorem place_of_not_isBelow (hbase : IsPlace storage.base)
    (h : ¬ IsBelow storage.base (resolve storage.base path)) :
    storage.place path = .error (storage.outside path) := by
  rw [place, if_neg (mt (staysBelow_relative_iff (isPlace_resolve hbase path)).mp h), outside]

/-- What a path that is taken means lies below the base directory. -/
theorem isBelow_of_place (hbase : IsPlace storage.base) (h : storage.place path = .ok target) :
    target = resolve storage.base path ∧ IsBelow storage.base target := by
  by_cases hbelow : IsBelow storage.base (resolve storage.base path)
  · obtain rfl := Except.ok.inj (h.symm.trans (place_of_isBelow hbase hbelow))
    exact ⟨rfl, hbelow⟩
  · rw [place_of_not_isBelow hbase hbelow] at h
    cases h

/-! ### Saving and loading -/

theorem on_saving_of_error (h : storage.place path = .error failure) (value : Option Value)
    (disk : Disk) : Writing.on disk (storage.saving path value) = (.error failure, disk) := by
  rw [saving, h]
  rfl

/-- Saving under a path that is taken makes the directories on the way and writes the file. -/
theorem on_saving_of_ok (h : storage.place path = .ok target) (value : Option Value)
    (disk : Disk) :
    Writing.on disk (storage.saving path value) =
      match disk.makeDirectory (placeText (Disk.parent target)) with
      | (.ok _, made) =>
        Writing.on made (Writing.change fun disk ↦ disk.write (placeText target) (fileText value))
      | (.error failure, made) => (.error failure, made) := by
  have hsaving : storage.saving path value =
      (Writing.makeDirectory (placeText (Disk.parent target)) >>= fun _ ↦
        Writing.change fun disk ↦ disk.write (placeText target) (fileText value)) := by
    rw [saving, h]
    rfl
  rw [hsaving, Writing.on_bind, Writing.on_makeDirectory]
  rcases disk.makeDirectory (placeText (Disk.parent target)) with ⟨_ | _, _⟩ <;> rfl

/-- A file written below the base directory is a change below it. -/
theorem changesBelow_write {base : FilePlace} (hbelow : IsBelow base target)
    (htarget : IsPlace target) (content : Text) (disk : Disk) :
    Disk.ChangesBelow (Disk.written base) disk
      (Writing.on disk (Writing.change fun disk ↦ disk.write (placeText target) content)).2 := by
  rw [Writing.on_change]
  cases hwrite : disk.write (placeText target) content with
  | error failure => exact .refl _ _
  | ok after =>
    obtain ⟨written, rfl⟩ := Disk.update_placeText htarget hwrite
    exact Disk.changesBelow_put (Disk.isBelow_written hbelow) _

/-- Saving changes the disk below the base directory, whether it succeeds or fails halfway. -/
theorem changesBelow_saving (hbase : IsPlace storage.base) (path : Text) (value : Option Value)
    (disk : Disk) :
    Disk.ChangesBelow (Disk.written storage.base) disk
      (Writing.on disk (storage.saving path value)).2 := by
  cases hplace : storage.place path with
  | error failure =>
    rw [on_saving_of_error hplace]
    exact .refl _ _
  | ok target =>
    obtain ⟨htarget, hbelow⟩ := isBelow_of_place hbase hplace
    have hisPlace : IsPlace target := htarget ▸ isPlace_resolve hbase path
    obtain ⟨parts, hne, rfl⟩ := isBelow_iff.mp hbelow
    have hparent : Disk.parent (storage.base ++ parts) = storage.base ++ parts.dropLast :=
      List.dropLast_append_of_ne_nil hne
    have hmade : Disk.ChangesBelow (Disk.written storage.base) disk
        (disk.makeDirectory (placeText (Disk.parent (storage.base ++ parts)))).2 := by
      rw [hparent]
      refine Disk.changesBelow_makeDirectory (fun name hmem ↦ hisPlace name ?_) ?_
      · rw [← hparent] at hmem
        exact List.dropLast_subset _ hmem
      · rw [Disk.written_append]
        exact List.prefix_append _ _
    rw [on_saving_of_ok hplace]
    cases hdirectory : disk.makeDirectory (placeText (Disk.parent (storage.base ++ parts))) with
    | mk result made =>
      rw [hdirectory] at hmade
      cases result with
      | error failure => exact hmade
      | ok _ => exact hmade.trans (changesBelow_write hbelow hisPlace _ _)

theorem load_of_error (h : storage.place path = .error failure) (disk : Disk) :
    storage.load path disk = .error failure := by
  rw [load, h]
  rfl

/-- Loading under a path that is taken reads the file. -/
theorem load_of_ok (h : storage.place path = .ok target) (disk : Disk) :
    storage.load path disk = (disk.read (placeText target)).bind fun content ↦
      match Json.readNormal? content with
      | some value => .ok value
      | none => .error (.runtime .malformed "The text is not JSON") := by
  rw [load, h]
  rfl

/-- Loading gives the same on disks that are alike below the base directory. -/
theorem load_congr (hbase : IsPlace storage.base) (path : Text) {first second : Disk}
    (h : Disk.AlikeBelow (Disk.written storage.base) first second) :
    storage.load path first = storage.load path second := by
  cases hplace : storage.place path with
  | error failure => rw [load_of_error hplace, load_of_error hplace]
  | ok target =>
    obtain ⟨htarget, hbelow⟩ := isBelow_of_place hbase hplace
    rw [load_of_ok hplace, load_of_ok hplace,
      h.read hbelow (htarget ▸ isPlace_resolve hbase path)]

/-- What storage does with a path does not leave its base directory. -/
structure Confines (storage : JsonFiles) (path : Text) : Prop where
  /-- The path is taken exactly when what it means lies strictly below the base directory. -/
  taken_iff : storage.place path = .ok (resolve storage.base path) ↔
    IsBelow storage.base (resolve storage.base path)
  /-- It is refused exactly when what it means is the base directory or not below it. -/
  refused_iff : storage.place path = .error (storage.outside path) ↔
    resolve storage.base path = storage.base ∨ ¬ storage.base <+: resolve storage.base path
  /-- A path that is taken gives a place strictly below the base directory, and the written form of
  the place is absolute and as short as can be. -/
  target : ∀ target, storage.place path = .ok target →
    IsPlace target ∧ IsBelow storage.base target ∧ isAbsolute (placeText target) = true ∧
      normalize (placeText target) = placeText target
  /-- Saving changes nothing but what lies below the base directory, and makes the directories on
  the way to it. -/
  saving : ∀ value disk, Disk.ChangesBelow (Disk.written storage.base) disk
    (Writing.on disk (storage.saving path value)).2
  /-- A file that does not lie below the base directory is neither made nor changed nor removed. -/
  files : ∀ value disk place, ¬ IsBelow (Disk.written storage.base) place → ∀ content,
    (Writing.on disk (storage.saving path value)).2.node? place = some (.file content) ↔
      disk.node? place = some (.file content)
  /-- Loading depends on nothing but what lies below the base directory, and the directories on the
  way to it. -/
  load : ∀ first second, Disk.AlikeBelow (Disk.written storage.base) first second →
    storage.load path first = storage.load path second

/-- Storage confines every path to what lies below its base directory. -/
theorem confines {home : FilePlace} (hhome : IsPlace home) (base path : Text) :
    (ofPath home base).Confines path := by
  have hbase : IsPlace (ofPath home base).base := isPlace_resolve hhome base
  have hnot (storage : JsonFiles) (target : FilePlace) :
      ¬ IsBelow storage.base target ↔ target = storage.base ∨ ¬ storage.base <+: target := by
    unfold IsBelow
    tauto
  refine ⟨⟨fun h ↦ (isBelow_of_place hbase h).2, place_of_isBelow hbase⟩, ?_, ?_,
    changesBelow_saving hbase path,
    fun value disk _ houtside ↦ (changesBelow_saving hbase path value disk).file_iff houtside,
    fun _ _ h ↦ load_congr hbase path h⟩
  · rw [← hnot]
    refine ⟨fun h hbelow ↦ ?_, place_of_not_isBelow hbase⟩
    rw [place_of_isBelow hbase hbelow] at h
    cases h
  · intro target h
    obtain ⟨rfl, hbelow⟩ := isBelow_of_place hbase h
    have hplace := isPlace_resolve hbase path
    exact ⟨hplace, hbelow, isAbsolute_placeText _, normalize_placeText hplace⟩

/-- A name that merely begins with dots is taken, however the way to it is written. -/
theorem confines_dottedName :
    IsPlace ["work"] ∧
      (ofPath ["work"] "store").place "a/..//./..data.json" = .ok ["work", "store", "..data.json"] ∧
      (ofPath ["work"] "store").Confines "a/..//./..data.json" := by
  have hhome : IsPlace ["work"] := by decide
  exact ⟨hhome, rfl, confines hhome "store" "a/..//./..data.json"⟩

end JsonFiles

end BrowserFlow
