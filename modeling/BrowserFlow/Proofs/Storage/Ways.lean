import BrowserFlow.Proofs.Storage.Disks

/-!
Ways to places. A disk can lead to a place when its written form and its names are
not too long and hold no unit zero (`Disk.CanLead`). Where no file stands on the
way, the way can be followed up to the first directory that is missing
(`Disk.locate_of_isOpen`), and the directories on it can be made
(`Disk.makeDirectory_parent_of_isOpen`). Where all of them are there, the place is found,
so that a file in it is read and written (`Disk.read_of_isMade`,
`Disk.write_of_isMade`). No other place is ever found (`Disk.canLead_of_locate`).
-/

set_option autoImplicit false
set_option relaxedAutoImplicit false

namespace BrowserFlow.Disk

open FilePath

variable {disk : Disk} {place before start parts : FilePlace}

/-- A place that a disk can lead to, once its directories are there. -/
structure CanLead (place : FilePlace) : Prop where
  /-- It is a place. -/
  isPlace : IsPlace place
  /-- Nothing keeps its written form from being followed. -/
  flawless : pathFlaw? (placeText place) = none
  /-- None of its names is too long. -/
  short : ∀ name ∈ written place, isTooLong name = false

instance (place : FilePlace) : Decidable (CanLead place) :=
  decidable_of_iff (IsPlace place ∧ pathFlaw? (placeText place) = none ∧
      ∀ name ∈ written place, isTooLong name = false)
    ⟨fun ⟨hplace, hflawless, hshort⟩ ↦ ⟨hplace, hflawless, hshort⟩,
      fun h ↦ ⟨h.isPlace, h.flawless, h.short⟩⟩

/-- No file stands on the way to a place. -/
def IsOpen (disk : Disk) (place : FilePlace) : Prop :=
  ∀ before, IsBelow before place → ∀ content, disk.node? before ≠ some (.file content)

/-- The directories on the way to a place are there. -/
def IsMade (disk : Disk) (place : FilePlace) : Prop :=
  ∀ before, IsBelow before place → disk.node? before = some .directory

theorem IsMade.isOpen (h : disk.IsMade place) : disk.IsOpen place := by
  intro before hbefore content heq
  rw [h before hbefore] at heq
  cases heq

/-! ### The place above -/

theorem written_parent (place : FilePlace) : written (parent place) = parent (written place) :=
  List.map_dropLast

/-- What stands on the way to a place is the place above it, or stands on the way there. -/
theorem isBelow_iff_prefix_parent (hne : place ≠ []) :
    IsBelow before place ↔ before <+: parent place := by
  obtain ⟨above, last, rfl⟩ := (List.eq_nil_or_concat place).resolve_left hne
  rw [IsBelow, parent, List.concat_eq_append, List.dropLast_concat, List.prefix_concat_iff]
  refine ⟨fun h ↦ h.1.resolve_left h.2, fun h ↦ ⟨.inr h, ?_⟩⟩
  rintro rfl
  have hlength := h.length_le
  rw [List.length_append, List.length_singleton] at hlength
  omega

theorem pathFlaw?_eq_none_iff (path : Text) :
    pathFlaw? path = none ↔ 0 ∉ path.units ∧ path.octets ≤ 4095 := by
  unfold pathFlaw?
  by_cases hzero : 0 ∈ path.units
  · simp [hzero]
  · simp [hzero]

/-- The way to the place above has no flaw that the way to the place has not. -/
theorem CanLead.parent (h : CanLead place) (hne : place ≠ []) : CanLead (parent place) := by
  obtain ⟨above, last, rfl⟩ := (List.eq_nil_or_concat place).resolve_left hne
  rw [List.concat_eq_append] at h
  rw [Disk.parent, List.concat_eq_append, List.dropLast_concat]
  refine ⟨fun name hmem ↦ h.isPlace name (List.mem_append_left _ hmem), ?_, fun name hmem ↦ ?_⟩
  · by_cases habove : above = []
    · subst habove
      decide
    · have hunits : (placeText (above ++ [last])).units =
          (placeText above).units ++ CodeUnit.ofChar '/' :: last.units := by
        rw [placeText, placeText, Text.units_append, Text.units_append,
          Text.units_join_concat "/" habove, slash_eq, ← List.append_assoc]
        rfl
      have hflawless := (pathFlaw?_eq_none_iff _).mp h.flawless
      rw [hunits] at hflawless
      refine (pathFlaw?_eq_none_iff _).mpr
        ⟨fun hmem ↦ hflawless.1 (List.mem_append_left _ hmem), ?_⟩
      have hoctets : (placeText above).octets ≤ (placeText (above ++ [last])).octets := by
        have hslash : ('/' : CodeUnit).isSurrogate = false := by decide
        have happend := Text.octets_le_append_cons hslash (placeText above).units last.units
        rw [← hunits] at happend
        exact happend
      exact Nat.le_trans hoctets hflawless.2
  · refine h.short name ?_
    rw [written_append]
    exact List.mem_append_left _ hmem

/-! ### Following an open way -/

/-- An open way is followed to its end, or up to the first directory that is missing. -/
theorem follow_of_isOpen (hparts : IsPlace parts) (hshort : ∀ name ∈ parts, isTooLong name = false)
    (hopen : disk.IsOpen (start ++ parts)) :
    disk.follow start parts = .ok (start ++ parts) ∨
      (disk.follow start parts = .error .missing ∧
        ∃ before, IsBelow before (start ++ parts) ∧ disk.node? before = none) := by
  induction parts generalizing start with
  | nil =>
    rw [follow, List.append_nil]
    exact .inl rfl
  | cons name rest ih =>
    obtain ⟨hname, hrest⟩ := List.forall_mem_cons.mp hparts
    obtain ⟨hnameShort, hrestShort⟩ := List.forall_mem_cons.mp hshort
    have hbelow : IsBelow start (start ++ name :: rest) := isBelow_append (List.cons_ne_nil _ _)
    have hway : start ++ name :: rest = (start ++ [name]) ++ rest := by simp
    rw [follow]
    split
    · next hnone => exact .inr ⟨rfl, start, hbelow, hnone⟩
    · next content hfile => exact absurd hfile (hopen start hbelow content)
    · rw [if_neg (by simp [hnameShort]), if_neg hname.ne_here, if_neg hname.ne_above, hway]
      exact ih hrest hrestShort (hway ▸ hopen)

theorem locate_of_isOpen (h : CanLead place) (hne : place ≠ [])
    (hopen : disk.IsOpen (written place)) :
    disk.locate (placeText place) = .ok (written place) ∨
      (disk.locate (placeText place) = .error .missing ∧
        ∃ before, IsBelow before (written place) ∧ disk.node? before = none) := by
  have hsome : (placeText place).isEmpty = false := by
    rw [Text.isEmpty, placeText, slash_eq]
    rfl
  have hfollow := @follow_of_isOpen disk [] _ (isPlace_written h.isPlace) h.short hopen
  rw [locate, h.flawless]
  dsimp only
  rw [hsome, if_neg Bool.false_ne_true, origin_placeText, steps_placeText hne h.isPlace]
  exact hfollow

theorem short_of_follow {found : FilePlace} (h : disk.follow start parts = .ok found) :
    ∀ name ∈ parts, isTooLong name = false := by
  induction parts generalizing start with
  | nil => exact List.forall_mem_nil _
  | cons name rest ih =>
    obtain ⟨-, hshort, h⟩ := follow_cons_eq_ok.mp h
    exact List.forall_mem_cons.mpr ⟨hshort, ih h⟩

/-- A disk that leads to a place can do so. -/
theorem canLead_of_locate (hplace : IsPlace place) (hne : place ≠ []) {found : FilePlace}
    (h : disk.locate (placeText place) = .ok found) : CanLead place := by
  obtain ⟨hflawless, -, h⟩ := locate_eq_ok.mp h
  rw [steps_placeText hne hplace] at h
  exact ⟨hplace, hflawless, short_of_follow h⟩

/-- Where the directories on the way are there, a place is found. -/
theorem locate_of_isMade (h : CanLead place) (hne : place ≠ [])
    (hmade : disk.IsMade (written place)) :
    disk.locate (placeText place) = .ok (written place) := by
  rcases locate_of_isOpen h hne hmade.isOpen with hfound | ⟨-, before, hbefore, hnone⟩
  · exact hfound
  · rw [hmade before hbefore] at hnone
    cases hnone

/-- Where a way is open and nothing is at its end, there is nothing to read. -/
theorem read_of_isOpen (h : CanLead place) (hne : place ≠ []) (hopen : disk.IsOpen (written place))
    (hnone : disk.node? (written place) = none) :
    disk.read (placeText place)
      = .error (DiskFlaw.missing.failure "open" (some (placeText place))) := by
  rw [read]
  rcases locate_of_isOpen h hne hopen with hfound | ⟨hmissing, -⟩
  · rw [hfound]
    dsimp only
    rw [hnone]
  · rw [hmissing]

/-- Where the directories on the way are there, a file is read. -/
theorem read_of_isMade (h : CanLead place) (hne : place ≠ []) (hmade : disk.IsMade (written place))
    {content : Text} (hfile : disk.node? (written place) = some (.file content)) :
    disk.read (placeText place) = .ok content := by
  rw [read, locate_of_isMade h hne hmade]
  dsimp only
  rw [hfile]

/-- Where the directories on the way are there, a file is written, unless a directory is in its
place. -/
theorem write_of_isMade (h : CanLead place) (hne : place ≠ [])
    (hmade : disk.IsMade (written place)) (hfree : disk.node? (written place) ≠ some .directory)
    (content : Text) :
    disk.write (placeText place) content
      = .ok (disk.put (written place) (.file content.mended)) := by
  rw [write, update, locate_of_isMade h hne hmade]
  dsimp only
  split
  · rfl
  · next hdirectory => exact absurd hdirectory hfree
  · rfl

/-! ### Making an open way -/

/-- Where there are no files, directories are made along names. -/
theorem makeAlong_of_open (hparts : IsPlace parts)
    (hshort : ∀ name ∈ parts, isTooLong name = false)
    (hstart : ∀ before, before <+: start → disk.node? before = some .directory)
    (hopen : ∀ before, before <+: start ++ parts →
      ∀ content, disk.node? before ≠ some (.file content)) :
    ∃ made, disk.makeAlong start parts = (.ok (), made) ∧
      ∀ before, before <+: start ++ parts → made.node? before = some .directory := by
  induction parts generalizing disk start with
  | nil =>
    refine ⟨disk, rfl, ?_⟩
    rwa [List.append_nil]
  | cons name rest ih =>
    obtain ⟨hname, hrest⟩ := List.forall_mem_cons.mp hparts
    obtain ⟨hnameShort, hrestShort⟩ := List.forall_mem_cons.mp hshort
    have hway : start ++ name :: rest = (start ++ [name]) ++ rest := by simp
    have hnext : start ++ [name] <+: start ++ name :: rest := hway ▸ List.prefix_append _ _
    rw [makeAlong, if_neg (by simp [hnameShort]), if_neg hname.ne_here, if_neg hname.ne_above]
    rw [hway] at hopen ⊢
    dsimp only
    split
    · refine ih hrest hrestShort (fun before hbefore ↦ ?_) (fun before hbefore content ↦ ?_)
      · by_cases heq : before = start ++ [name]
        · rw [heq, node?_put_self _ (by simp)]
        · rw [node?_put_of_ne _ heq]
          exact hstart before ((List.prefix_concat_iff.mp hbefore).resolve_left heq)
      · by_cases heq : before = start ++ [name]
        · rw [heq, node?_put_self _ (by simp)]
          simp
        · rw [node?_put_of_ne _ heq]
          exact hopen before hbefore content
    · next hdirectory =>
      refine ih hrest hrestShort (fun before hbefore ↦ ?_) hopen
      rcases List.prefix_concat_iff.mp hbefore with rfl | hup
      · exact hdirectory
      · exact hstart before hup
    · next content hfile => exact absurd hfile (hopen _ (List.prefix_append _ _) content)

/-- Where there are no files, a directory is made, with all that lead to it. -/
theorem makeDirectory_of_open (h : CanLead place)
    (hopen : ∀ before, before <+: written place →
      ∀ content, disk.node? before ≠ some (.file content)) :
    ∃ made, disk.makeDirectory (placeText place) = (.ok (), made) ∧
      ∀ before, before <+: written place → made.node? before = some .directory := by
  have hroot : ∀ before, before <+: [] → disk.node? before = some .directory := by
    intro before hbefore
    rw [List.prefix_nil.mp hbefore, node?_nil]
  rw [makeDirectory, h.flawless, origin_placeText]
  by_cases hne : place = []
  · subst hne
    rw [steps_placeText_nil]
    exact ⟨disk, rfl, hroot⟩
  · rw [steps_placeText hne h.isPlace]
    obtain ⟨made, hmade, hall⟩ :=
      makeAlong_of_open (isPlace_written h.isPlace) h.short hroot hopen
    rw [hmade]
    exact ⟨made, rfl, hall⟩

/-- Where the way to a place is open, the directories on it can be made, and nothing else is
changed by making them. -/
theorem makeDirectory_parent_of_isOpen (h : CanLead place) (hne : place ≠ [])
    (hopen : disk.IsOpen (written place)) :
    ∃ made, disk.makeDirectory (placeText (Disk.parent place)) = (.ok (), made) ∧
      made.IsMade (written place) ∧ ∀ other, made.node? other = disk.node? other ∨
        (disk.node? other = none ∧ made.node? other = some .directory ∧
          IsBelow other (written place)) := by
  have hway : ∀ before, IsBelow before (written place) ↔
      before <+: written (Disk.parent place) := fun before ↦ by
    rw [isBelow_iff_prefix_parent (mt written_eq_nil_iff.mp hne), written_parent]
  have hparent := h.parent hne
  obtain ⟨made, hmake, hdirectories⟩ := makeDirectory_of_open hparent
    fun before hbefore ↦ hopen before ((hway before).mpr hbefore)
  have heffect := @node?_makeDirectory disk _ hparent.isPlace
  rw [hmake] at heffect
  refine ⟨made, hmake, fun before hbefore ↦ hdirectories before ((hway before).mp hbefore),
    fun other ↦ ?_⟩
  exact (heffect other).imp_right fun ⟨hnone, hdirectory, hup⟩ ↦
    ⟨hnone, hdirectory, (hway other).mpr hup⟩

end BrowserFlow.Disk
