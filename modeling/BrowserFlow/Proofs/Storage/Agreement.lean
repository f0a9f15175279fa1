import BrowserFlow.Proofs.Json.RoundTrip
import BrowserFlow.Proofs.Storage.Confinement
import BrowserFlow.Proofs.Storage.Ways
import BrowserFlow.Storage.Memory

/-!
Storage in files and storage in memory agree. A file that was written with a value
is read as the plain form of the value (`JsonFiles.readNormal?_fileText`). Saving
under a path whose way is open puts the file there, makes the directories that
lead to it and does nothing else (`JsonFiles.on_saving_of_isOpen`). So the disk
goes on holding what the memory holds, request by request (`JsonFiles.Mirrors.serve`),
and whatever is requested, the answers agree. Main statement:
`JsonFiles.agrees_with_store`.

Scope. The paths lead, one by one, to places that the disk can lead to, and none of
these is, as it is on the disk, the beginning of another. Names on a disk have no
unpaired surrogates, so two paths that differ in these alone may lead to one file
(`JsonFiles.not_agrees_unpairedSurrogates`).
-/

set_option autoImplicit false
set_option relaxedAutoImplicit false

namespace BrowserFlow

open FilePath

/-! ### Requests -/

/-- A request to a storage. -/
inductive StorageRequest where
  /-- A value is to be saved. -/
  | save (path : Text) (value : Value)
  /-- A value is to be loaded. -/
  | load (path : Text)

namespace StorageRequest

/-- What a request is answered: a failure, the value that was loaded, or nothing after saving. -/
abbrev Answer := Except Failure (Option Value)

/-- Two answers agree when both are failures, or when the first has the plain form of the value of
the second. -/
def Answer.Agrees (first second : Answer) : Prop :=
  first.toOption = second.toOption.map (Option.map Value.plain)

/-- Requests served one after the other: the answers, and the state behind them. -/
def serveAll {σ : Type} (serve : σ → StorageRequest → Answer × σ) (state : σ) :
    List StorageRequest → List Answer × σ
  | [] => ([], state)
  | request :: rest =>
    let (answer, next) := serve state request
    let (answers, last) := serveAll serve next rest
    (answer :: answers, last)

/-- A request with one of some paths, and with a value whose numbers are finite and whose keys are
in order. -/
def IsWithin (used : List FilePlace) : StorageRequest → Prop
  | .save path value => (∃ parts ∈ used, path = Text.join "/" parts) ∧
    value.isNormalised = true ∧ value.isOrdered = true
  | .load path => ∃ parts ∈ used, path = Text.join "/" parts

/-- What holds at first and is kept by every request holds after all of them, and so does what is
true of every answer. -/
theorem serveAll_forall₂ {σ τ : Type} {serve : σ → StorageRequest → Answer × σ}
    {serveOther : τ → StorageRequest → Answer × τ} {related : σ → τ → Prop}
    {requests : List StorageRequest}
    (hstep : ∀ request ∈ requests, ∀ state other, related state other →
      (serve state request).1.Agrees (serveOther other request).1 ∧
        related (serve state request).2 (serveOther other request).2)
    {state : σ} {other : τ} (hstart : related state other) :
    List.Forall₂ Answer.Agrees (serveAll serve state requests).1
        (serveAll serveOther other requests).1 ∧
      related (serveAll serve state requests).2 (serveAll serveOther other requests).2 := by
  induction requests generalizing state other with
  | nil => exact ⟨.nil, hstart⟩
  | cons request rest ih =>
    obtain ⟨hfirst, hnext⟩ := hstep request (.head _) state other hstart
    obtain ⟨hanswers, hlast⟩ :=
      ih (fun later hlater ↦ hstep later (.tail _ hlater)) hnext
    exact ⟨.cons hfirst hanswers, hlast⟩

end StorageRequest

namespace Store

/-- What is held under a path. -/
def value? {α : Type} (store : Store α) (path : Text) : Option α :=
  (Entries.find? store.contents path).join

theorem value?_save {α : Type} (store : Store α) (path other : Text) (value : α) :
    (store.save path (some value)).value? other =
      if path = other then some value else store.value? other := by
  rw [value?, save, Entries.find?_write]
  split <;> rfl

theorem load_eq {α : Type} (store : Store α) (path : Text) :
    store.load path = match store.value? path with
      | some value => .ok value
      | none => .error (missing path) := rfl

/-- A request to storage in memory. -/
def serve (store : Store Value) : StorageRequest → StorageRequest.Answer × Store Value
  | .save path value => (.ok none, store.save path (some value))
  | .load path => ((store.load path).map some, store)

end Store

namespace JsonFiles

variable {storage : JsonFiles} {used : List FilePlace} {parts others : FilePlace} {value : Value}
  {disk after : Disk} {store : Store Value}

/-- A request to storage in files. -/
def serve (storage : JsonFiles) (disk : Disk) : StorageRequest → StorageRequest.Answer × Disk
  | .save path value =>
    let (saved, after) := Writing.on disk (storage.saving path (some value))
    (saved.map fun _ ↦ none, after)
  | .load path => ((storage.load path disk).map some, disk)

/-! ### The text of a file -/

/-- The text of a file is written as it is. -/
theorem mended_fileText (value : Value) :
    (fileText (some value)).mended = fileText (some value) := Json.mended_writeIndented value

/-- The text of a file is read as the plain form of the value. -/
theorem readNormal?_fileText (hnormalised : value.isNormalised = true)
    (hordered : value.isOrdered = true) :
    Json.readNormal? (fileText (some value)) = some value.plain := by
  have hread := Json.read?_writeIndented hnormalised hordered
  have hnormal : (Datum.ofValue value.plain).normal = .ok value.plain :=
    Datum.normal_ofValue (value.plain_isNormalised.trans hnormalised)
      (value.plain_isOrdered.trans hordered)
  rw [Json.readNormal?, fileText, hread, Option.bind_eq_bind, Option.bind_some, hnormal]
  rfl

/-! ### Paths -/

/-- The place of a path on a disk, by the names of the path. -/
def spot (storage : JsonFiles) (parts : FilePlace) : FilePlace :=
  Disk.written (storage.base ++ parts)

/-- Paths that lead to places of their own. -/
structure CanHold (storage : JsonFiles) (used : List FilePlace) : Prop where
  /-- They have names. -/
  nonempty : ∀ parts ∈ used, parts ≠ []
  /-- A disk can lead to their places. -/
  canLead : ∀ parts ∈ used, Disk.CanLead (storage.base ++ parts)
  /-- None is, as it is on a disk, the beginning of another. -/
  apart : ∀ parts ∈ used, ∀ others ∈ used, parts ≠ others →
    ¬ Disk.written parts <+: Disk.written others

/-- Nothing is held under some paths, and there is room for it. -/
structure IsFresh (storage : JsonFiles) (used : List FilePlace) (disk : Disk) : Prop where
  /-- There is nothing in their places. -/
  free : ∀ parts ∈ used, disk.node? (storage.spot parts) = none
  /-- There is no file on the way. -/
  isOpen : ∀ parts ∈ used, disk.IsOpen (storage.spot parts)

namespace CanHold

theorem isPlace (h : storage.CanHold used) (hparts : parts ∈ used) : IsPlace parts :=
  (h.canLead parts hparts).isPlace.of_append_right

theorem target_ne_nil (h : storage.CanHold used) (hparts : parts ∈ used) :
    storage.base ++ parts ≠ [] := by
  simp [h.nonempty parts hparts]

/-- The path of a place means the place. -/
theorem place_eq (h : storage.CanHold used) (hparts : parts ∈ used) :
    storage.place (Text.join "/" parts) = .ok (storage.base ++ parts) := by
  have hbase : IsPlace storage.base :=
    fun name hmem ↦ (h.canLead parts hparts).isPlace name (List.mem_append_left _ hmem)
  have hresolve := resolve_join (h.nonempty parts hparts) (h.isPlace hparts) storage.base
  have hbelow : IsBelow storage.base (resolve storage.base (Text.join "/" parts)) :=
    hresolve ▸ isBelow_append (h.nonempty parts hparts)
  rw [place_of_isBelow hbase hbelow, hresolve]

/-- Different places have different paths. -/
theorem join_injective (h : storage.CanHold used) (hparts : parts ∈ used) (hothers : others ∈ used)
    (heq : Text.join "/" parts = Text.join "/" others) : parts = others := by
  rw [← names_join (h.nonempty parts hparts) (h.isPlace hparts), heq,
    names_join (h.nonempty others hothers) (h.isPlace hothers)]

theorem spot_not_prefix (h : storage.CanHold used) (hparts : parts ∈ used)
    (hothers : others ∈ used) (hne : parts ≠ others) :
    ¬ storage.spot parts <+: storage.spot others := by
  rw [spot, spot, Disk.written_append, Disk.written_append, List.prefix_append_right_inj]
  exact h.apart parts hparts others hothers hne

end CanHold

/-! ### Saving and loading on an open way -/

/-- The disk after a file was written in a place: the directories that lead there were made, and
nothing else was changed. -/
structure IsWritten (place : FilePlace) (content : Text) (disk after : Disk) : Prop where
  /-- The file is there. -/
  file : after.node? place = some (.file content)
  /-- The directories that lead there are there. -/
  isMade : after.IsMade place
  /-- Elsewhere nothing is changed, but for directories that were missing on the way. -/
  elsewhere : ∀ other, other ≠ place → after.node? other = disk.node? other ∨
    (disk.node? other = none ∧ after.node? other = some .directory ∧ IsBelow other place)

/-- Saving where the way is open writes the file and makes the directories that lead to it. -/
theorem on_saving_of_isOpen (hused : storage.CanHold used) (hparts : parts ∈ used)
    (hopen : disk.IsOpen (storage.spot parts))
    (hfree : disk.node? (storage.spot parts) ≠ some .directory) :
    ∃ after, Writing.on disk (storage.saving (Text.join "/" parts) (some value)) = (.ok (), after) ∧
      IsWritten (storage.spot parts) (fileText (some value)) disk after := by
  have hne := hused.target_ne_nil hparts
  have hlead := hused.canLead parts hparts
  have hspot : storage.spot parts ≠ [] := mt Disk.written_eq_nil_iff.mp hne
  obtain ⟨made, hmake, hmade, heffect⟩ := Disk.makeDirectory_parent_of_isOpen hlead hne hopen
  have hfreeMade : made.node? (storage.spot parts) ≠ some .directory := by
    rcases heffect (storage.spot parts) with hsame | ⟨-, -, hbelow⟩
    · rwa [hsame]
    · exact absurd rfl hbelow.2
  have hwrite := Disk.write_of_isMade hlead hne hmade hfreeMade (fileText (some value))
  rw [mended_fileText] at hwrite
  refine ⟨made.put (storage.spot parts) (.file (fileText (some value))), ?_, ?_, ?_, ?_⟩
  · rw [on_saving_of_ok (hused.place_eq hparts), hmake]
    dsimp only
    rw [Writing.on_change, hwrite]
    rfl
  · exact Disk.node?_put_self _ hspot _
  · intro before hbefore
    rw [Disk.node?_put_of_ne _ hbefore.2]
    exact hmade before hbefore
  · intro other hother
    rw [Disk.node?_put_of_ne _ hother]
    exact heffect other

/-- Nothing is saved under a path whose place a disk cannot lead to. -/
theorem canLead_of_saving {path : Text} {target : FilePlace} (hbase : IsPlace storage.base)
    (hplace : storage.place path = .ok target)
    (h : Writing.on disk (storage.saving path (some value)) = (.ok (), after)) :
    Disk.CanLead target := by
  obtain ⟨htarget, hbelow⟩ := isBelow_of_place hbase hplace
  have hisPlace : IsPlace target := htarget ▸ isPlace_resolve hbase path
  have hne : target ≠ [] := by
    obtain ⟨parts, hparts, rfl⟩ := isBelow_iff.mp hbelow
    simp [hparts]
  rw [on_saving_of_ok hplace] at h
  split at h
  · next made _ =>
    rw [Writing.on_change, Disk.write, Disk.update] at h
    split at h
    · next hwrite =>
      split at hwrite
      · cases hwrite
      · next hlocate => exact Disk.canLead_of_locate hisPlace hne hlocate
    · cases h
  · cases h

/-- Where the way is open and there is nothing, loading fails. -/
theorem load_of_isOpen (hused : storage.CanHold used) (hparts : parts ∈ used)
    (hopen : disk.IsOpen (storage.spot parts)) (hnone : disk.node? (storage.spot parts) = none) :
    storage.load (Text.join "/" parts) disk =
      .error (DiskFlaw.missing.failure "open" (some (placeText (storage.base ++ parts)))) := by
  rw [load_of_ok (hused.place_eq hparts), Disk.read_of_isOpen (hused.canLead parts hparts)
    (hused.target_ne_nil hparts) hopen hnone]
  rfl

/-- A file that was written with a value is loaded as the plain form of the value. -/
theorem load_of_isMade (hused : storage.CanHold used) (hparts : parts ∈ used)
    (hmade : disk.IsMade (storage.spot parts))
    (hfile : disk.node? (storage.spot parts) = some (.file (fileText (some value))))
    (hnormalised : value.isNormalised = true) (hordered : value.isOrdered = true) :
    storage.load (Text.join "/" parts) disk = .ok value.plain := by
  rw [load_of_ok (hused.place_eq hparts), Disk.read_of_isMade (hused.canLead parts hparts)
    (hused.target_ne_nil hparts) hmade hfile, Except.bind,
    readNormal?_fileText hnormalised hordered]

/-! ### A disk that holds what a memory holds -/

/-- What a place on a disk holds for what a memory may hold: nothing, or the file of the value. -/
inductive Holds (disk : Disk) (place : FilePlace) : Option Value → Prop
  /-- There is nothing. -/
  | nothing (hnone : disk.node? place = none) : Holds disk place none
  /-- There is the file of the value. -/
  | value {value : Value} (hnormalised : value.isNormalised = true)
    (hordered : value.isOrdered = true)
    (hfile : disk.node? place = some (.file (fileText (some value))))
    (hmade : disk.IsMade place) : Holds disk place (some value)

/-- The disk holds under some paths what the memory holds under them. -/
structure Mirrors (storage : JsonFiles) (used : List FilePlace) (disk : Disk)
    (store : Store Value) : Prop where
  /-- There is no file on the way to any of them. -/
  isOpen : ∀ parts ∈ used, disk.IsOpen (storage.spot parts)
  /-- Each holds what the memory holds. -/
  holds : ∀ parts ∈ used,
    Holds disk (storage.spot parts) (store.value? (Text.join "/" parts))

theorem IsFresh.mirrors (h : storage.IsFresh used disk) : storage.Mirrors used disk Store.empty :=
  ⟨h.isOpen, fun parts hparts ↦ .nothing (h.free parts hparts)⟩

namespace Mirrors

/-- What is loaded from files is the plain form of what the memory holds. -/
theorem load_eq (hused : storage.CanHold used) (h : storage.Mirrors used disk store)
    (hparts : parts ∈ used) :
    storage.load (Text.join "/" parts) disk = match store.value? (Text.join "/" parts) with
      | some value => .ok value.plain
      | none =>
        .error (DiskFlaw.missing.failure "open" (some (placeText (storage.base ++ parts)))) := by
  have hholds := h.holds parts hparts
  generalize store.value? (Text.join "/" parts) = held at hholds ⊢
  cases hholds with
  | nothing hnone => exact load_of_isOpen hused hparts (h.isOpen parts hparts) hnone
  | value hnormalised hordered hfile hmade =>
    exact load_of_isMade hused hparts hmade hfile hnormalised hordered

/-- A file written under one path is what the memory holds there, and the others are left alone. -/
theorem save (hused : storage.CanHold used) (h : storage.Mirrors used disk store)
    (hparts : parts ∈ used) (hnormalised : value.isNormalised = true)
    (hordered : value.isOrdered = true)
    (hafter : IsWritten (storage.spot parts) (fileText (some value)) disk after) :
    storage.Mirrors used after (store.save (Text.join "/" parts) (some value)) := by
  -- What stands on the way to one of the places is none of the other places.
  have hway : ∀ others ∈ used, others ≠ parts → ∀ before, IsBelow before (storage.spot others) →
      before ≠ storage.spot parts := by
    rintro others hothers hne before hbefore rfl
    exact hused.spot_not_prefix hparts hothers hne.symm hbefore.1
  refine ⟨fun others hothers ↦ ?_, fun others hothers ↦ ?_⟩
  · by_cases heq : others = parts
    · exact heq ▸ hafter.isMade.isOpen
    · intro before hbefore content hfile
      rcases hafter.elsewhere before (hway others hothers heq before hbefore) with
        hsame | ⟨-, hdirectory, -⟩
      · exact h.isOpen others hothers before hbefore content (hsame ▸ hfile)
      · rw [hdirectory] at hfile
        cases hfile
  · rw [Store.value?_save]
    by_cases heq : others = parts
    · rw [heq, if_pos rfl]
      exact .value hnormalised hordered hafter.file hafter.isMade
    · have hne : storage.spot others ≠ storage.spot parts := fun hspot ↦
        hused.spot_not_prefix hothers hparts heq (hspot ▸ List.prefix_rfl)
      have hpath : Text.join "/" parts ≠ Text.join "/" others :=
        fun hjoin ↦ heq (hused.join_injective hparts hothers hjoin).symm
      rw [if_neg hpath]
      have hspot : after.node? (storage.spot others) = disk.node? (storage.spot others) :=
        (hafter.elsewhere _ hne).resolve_right fun ⟨_, _, hbelow⟩ ↦
          hused.spot_not_prefix hothers hparts heq hbelow.1
      have hholds := h.holds others hothers
      generalize store.value? (Text.join "/" others) = held at hholds ⊢
      cases hholds with
      | nothing hnone => exact .nothing (hspot.trans hnone)
      | value hnormalised hordered hfile hmade =>
        refine .value hnormalised hordered (hspot.trans hfile) fun before hbefore ↦ ?_
        have hdirectory := hmade before hbefore
        rcases hafter.elsewhere before (hway others hothers heq before hbefore) with
          hsame | ⟨hnone, -, -⟩
        · exact hsame.trans hdirectory
        · rw [hnone] at hdirectory
          cases hdirectory

/-- Saving is never refused, and the disk goes on holding what the memory holds. -/
theorem on_saving (hused : storage.CanHold used) (h : storage.Mirrors used disk store)
    (hparts : parts ∈ used) (hnormalised : value.isNormalised = true)
    (hordered : value.isOrdered = true) :
    ∃ after, Writing.on disk (storage.saving (Text.join "/" parts) (some value)) = (.ok (), after) ∧
      storage.Mirrors used after (store.save (Text.join "/" parts) (some value)) := by
  have hfree : disk.node? (storage.spot parts) ≠ some .directory := by
    have hholds := h.holds parts hparts
    generalize store.value? (Text.join "/" parts) = held at hholds
    cases hholds with
    | nothing hnone => simp [hnone]
    | value _ _ hfile _ => simp [hfile]
  obtain ⟨after, hsaved, hafter⟩ :=
    on_saving_of_isOpen hused hparts (h.isOpen parts hparts) hfree
  exact ⟨after, hsaved, h.save hused hparts hnormalised hordered hafter⟩

/-- A request is answered alike from files and from memory, and the disk goes on holding what the
memory holds. -/
theorem serve (hused : storage.CanHold used) (h : storage.Mirrors used disk store)
    {request : StorageRequest} (hrequest : request.IsWithin used) :
    (storage.serve disk request).1.Agrees (store.serve request).1 ∧
      storage.Mirrors used (storage.serve disk request).2 (store.serve request).2 := by
  cases request with
  | save path value =>
    obtain ⟨⟨parts, hparts, rfl⟩, hnormalised, hordered⟩ := hrequest
    obtain ⟨after, hsaved, hafter⟩ := h.on_saving hused hparts hnormalised hordered
    rw [JsonFiles.serve, hsaved]
    exact ⟨rfl, hafter⟩
  | load path =>
    obtain ⟨parts, hparts, rfl⟩ := hrequest
    refine ⟨?_, h⟩
    rw [JsonFiles.serve, Store.serve, h.load_eq hused hparts, Store.load_eq]
    cases store.value? (Text.join "/" parts) <;> rfl

end Mirrors

/-! ### Agreement -/

/-- Whatever is requested under some paths, storage in files does what storage in memory does. -/
structure AgreesWithStore (storage : JsonFiles) (used : List FilePlace) (disk : Disk)
    (requests : List StorageRequest) : Prop where
  /-- Both refuse the same requests, and what one loads is the plain form of what the other does. -/
  answers : List.Forall₂ StorageRequest.Answer.Agrees
    (StorageRequest.serveAll storage.serve disk requests).1
    (StorageRequest.serveAll Store.serve Store.empty requests).1
  /-- What is saved afterwards is loaded again, and what is loaded under the other paths is as it
  was. -/
  saving : ∀ parts ∈ used, ∀ value : Value, value.isNormalised = true → value.isOrdered = true →
    ∃ after, Writing.on (StorageRequest.serveAll storage.serve disk requests).2
        (storage.saving (Text.join "/" parts) (some value)) = (.ok (), after) ∧
      storage.load (Text.join "/" parts) after = .ok value.plain ∧
      ∀ others ∈ used, others ≠ parts → storage.load (Text.join "/" others) after =
        storage.load (Text.join "/" others)
          (StorageRequest.serveAll storage.serve disk requests).2

/-- Storage in files agrees with storage in memory on every sequence of requests. -/
theorem agrees_with_store (hused : storage.CanHold used) (hdisk : storage.IsFresh used disk)
    {requests : List StorageRequest} (hrequests : ∀ request ∈ requests, request.IsWithin used) :
    storage.AgreesWithStore used disk requests := by
  have hstep : ∀ request ∈ requests, ∀ state memory, storage.Mirrors used state memory →
      (storage.serve state request).1.Agrees (memory.serve request).1 ∧
        storage.Mirrors used (storage.serve state request).2 (memory.serve request).2 :=
    fun request hrequest _ _ h ↦ h.serve hused (hrequests request hrequest)
  obtain ⟨hanswers, hlast⟩ := StorageRequest.serveAll_forall₂ hstep hdisk.mirrors
  refine ⟨hanswers, fun parts hparts value hnormalised hordered ↦ ?_⟩
  obtain ⟨after, hsaved, hafter⟩ := hlast.on_saving hused hparts hnormalised hordered
  refine ⟨after, hsaved, ?_, fun others hothers hne ↦ ?_⟩
  · rw [hafter.load_eq hused hparts, Store.value?_save, if_pos rfl]
  · have hpath : Text.join "/" parts ≠ Text.join "/" others :=
      fun hjoin ↦ hne (hused.join_injective hparts hothers hjoin).symm
    rw [hafter.load_eq hused hothers, hlast.load_eq hused hothers, Store.value?_save, if_neg hpath]

/-- A disk without any files is fresh. -/
theorem isFresh_empty (storage : JsonFiles) (home : FilePlace)
    (hnonempty : ∀ parts ∈ used, parts ≠ []) : storage.IsFresh used ⟨home, []⟩ := by
  refine ⟨fun parts hparts ↦ ?_, fun parts _ before _ content ↦ ?_⟩
  · have hspot : storage.spot parts ≠ [] :=
      mt Disk.written_eq_nil_iff.mp (by simp [hnonempty parts hparts])
    rw [Disk.node?, if_neg hspot]
    rfl
  · rw [Disk.node?]
    split
    · simp
    · simp [Disk.findNode]

/-- A mapping with control characters, an unpaired surrogate and empty containers is saved and
loaded beside a number. -/
theorem agrees_with_store_nestedMapping :
    let storage : JsonFiles := ⟨["work", "store"]⟩
    let used : List FilePlace := [["a.json"], ["runs", "b.json"]]
    let nested : Value := .mapping
      [("text", .text ⟨[10, 0xD800]⟩), ("items", .sequence [.sequence [], .mapping [], .null])]
    let requests : List StorageRequest := [.load "a.json", .save "a.json" nested,
      .save "runs/b.json" (.number (Number.ofCount 7)), .load "a.json", .load "runs/b.json"]
    storage.CanHold used ∧ storage.IsFresh used ⟨["work"], []⟩ ∧
      (∀ request ∈ requests, request.IsWithin used) ∧
        storage.AgreesWithStore used ⟨["work"], []⟩ requests := by
  intro storage used nested requests
  have hnumber : (Value.number (Number.ofCount 7)).isNormalised = true := by
    rw [Value.isNormalised_number]
    exact Number.ofCount_isFinite 7
  have hused : storage.CanHold used := ⟨by decide, by decide, by decide⟩
  have hfresh : storage.IsFresh used ⟨["work"], []⟩ :=
    isFresh_empty storage ["work"] hused.nonempty
  have hrequests : ∀ request ∈ requests, request.IsWithin used := by
    refine List.forall_mem_cons.mpr ⟨⟨_, .head _, rfl⟩, List.forall_mem_cons.mpr ⟨?_,
      List.forall_mem_cons.mpr ⟨?_, List.forall_mem_cons.mpr ⟨⟨_, .head _, rfl⟩, ?_⟩⟩⟩⟩
    · exact ⟨⟨_, .head _, rfl⟩, by decide, by decide⟩
    · exact ⟨⟨_, .tail _ (.head _), rfl⟩, hnumber, by decide⟩
    · exact List.forall_mem_singleton.mpr ⟨_, .tail _ (.head _), rfl⟩
  exact ⟨hused, hfresh, hrequests, agrees_with_store hused hfresh hrequests⟩

/-- Canonical paths, none of which is the beginning of another. -/
structure AreCanonical (storage : JsonFiles) (used : List FilePlace) : Prop where
  /-- The base directory is a place. -/
  base : IsPlace storage.base
  /-- The paths have names. -/
  nonempty : ∀ parts ∈ used, parts ≠ []
  /-- Their names are names of places. -/
  isPlace : ∀ parts ∈ used, IsPlace parts
  /-- None is the beginning of another. -/
  apart : ∀ parts ∈ used, ∀ others ∈ used, parts ≠ others → ¬ parts <+: others

/-- Under a path that is the unit zero nothing is saved in files. -/
theorem not_agrees_zeroUnit : ¬ AgreesWithStore ⟨["store"]⟩ [[⟨[0]⟩]] ⟨[], []⟩ [] := by
  intro h
  obtain ⟨after, hsaved, -⟩ := h.saving _ (.head _) .null rfl rfl
  exact absurd (canLead_of_saving (by decide) rfl hsaved) (by decide)

/-- Two values saved under paths that are different unpaired surrogates, and the first loaded. -/
def surrogateRequests : List StorageRequest :=
  [.save ⟨[0xD800]⟩ (.bool true), .save ⟨[0xD801]⟩ (.bool false), .load ⟨[0xD800]⟩]

/-- Of two paths that are different unpaired surrogates, the second overwrites the file of the
first. -/
theorem not_agrees_unpairedSurrogates :
    ¬ AgreesWithStore ⟨["store"]⟩ [[⟨[0xD800]⟩], [⟨[0xD801]⟩]] ⟨[], []⟩ surrogateRequests := by
  intro h
  have hfiles : (StorageRequest.serveAll (serve ⟨["store"]⟩) ⟨[], []⟩ surrogateRequests).1 =
      [.ok none, .ok none, .ok (some (.bool false))] := rfl
  have hmemory : (StorageRequest.serveAll Store.serve Store.empty surrogateRequests).1 =
      [.ok none, .ok none, .ok (some (.bool true))] := rfl
  have hanswers := h.answers
  rw [hfiles, hmemory, List.forall₂_cons, List.forall₂_cons, List.forall₂_cons] at hanswers
  cases hanswers.2.2.1

/-- It is not enough that paths are canonical: a disk cannot lead to the place of each, and it does
not tell all of them apart where it can. -/
theorem not_agrees_of_areCanonical :
    (¬ ∀ storage used disk requests, AreCanonical storage used →
      (∀ parts ∈ used, ∀ others ∈ used, parts ≠ others →
        ¬ Disk.written parts <+: Disk.written others) →
      storage.IsFresh used disk → (∀ request ∈ requests, request.IsWithin used) →
        storage.AgreesWithStore used disk requests) ∧
    (¬ ∀ storage used disk requests, AreCanonical storage used →
      (∀ parts ∈ used, Disk.CanLead (storage.base ++ parts)) →
      storage.IsFresh used disk → (∀ request ∈ requests, request.IsWithin used) →
        storage.AgreesWithStore used disk requests) := by
  constructor
  · intro h
    have hcanonical : AreCanonical ⟨["store"]⟩ [[⟨[0]⟩]] :=
      ⟨by decide, by decide, by decide, by decide⟩
    exact not_agrees_zeroUnit (h _ _ _ [] hcanonical (by decide)
      (isFresh_empty _ _ hcanonical.nonempty) (List.forall_mem_nil _))
  · intro h
    have hcanonical : AreCanonical ⟨["store"]⟩ [[⟨[0xD800]⟩], [⟨[0xD801]⟩]] :=
      ⟨by decide, by decide, by decide, by decide⟩
    refine not_agrees_unpairedSurrogates (h _ _ _ surrogateRequests hcanonical (by decide)
      (isFresh_empty _ _ hcanonical.nonempty) ?_)
    exact List.forall_mem_cons.mpr ⟨⟨⟨_, .head _, rfl⟩, rfl, rfl⟩, List.forall_mem_cons.mpr
      ⟨⟨⟨_, .tail _ (.head _), rfl⟩, rfl, rfl⟩, List.forall_mem_singleton.mpr ⟨_, .head _, rfl⟩⟩⟩

end JsonFiles

end BrowserFlow
