import BrowserFlow.Fault.Basic
import BrowserFlow.Storage.Path

/-!
A disk: a tree of directories and files, and the directory in which relative
paths begin. Paths are followed name by name, and every name but the last has to
lead to a directory that is there. Names on a disk are well-formed: a path stands
for what is left of it when its unpaired surrogates are replaced. A refused
operation says why, and which path was given; directories that were made before
it was refused stay.
-/

set_option autoImplicit false
set_option relaxedAutoImplicit false

namespace BrowserFlow

/-- What is in a place. -/
inductive FileNode where
  /-- A file with its text. -/
  | file (content : Text)
  /-- A directory. -/
  | directory

/-- A tree of directories and files. -/
structure Disk where
  /-- Where relative paths begin. -/
  home : FilePlace
  /-- What is where. The root is always a directory. -/
  nodes : List (FilePlace × FileNode)

/-- Why an operation is refused. -/
inductive DiskFlaw where
  /-- There is nothing. -/
  | missing
  /-- There is a directory. -/
  | isDirectory
  /-- A name on the way is no directory. -/
  | notDirectory
  /-- There is a file. -/
  | taken
  /-- A name or the whole path is too long. -/
  | tooLong
  /-- The path holds the unit zero, which no path can. -/
  | zeroUnit

namespace DiskFlaw

/-- The code and the words of a flaw. -/
def words : DiskFlaw → Text
  | .missing => "ENOENT: no such file or directory"
  | .isDirectory => "EISDIR: illegal operation on a directory"
  | .notDirectory => "ENOTDIR: not a directory"
  | .taken => "EEXIST: file already exists"
  | .tooLong => "ENAMETOOLONG: name too long"
  | .zeroUnit => "The argument 'path' must be a string, Uint8Array, or URL without null bytes."

/-- A path in quotes, with each unit zero spelled out. -/
def spelled (path : Text) : Text :=
  let zero : Text := "\\x00"
  "'" ++ ⟨path.units.flatMap fun (u : CodeUnit) ↦ if u = 0 then zero.units else [u]⟩ ++ "'"

/-- The failure of an operation, with the path when the operation was given one. -/
def failure (flaw : DiskFlaw) (operation : Text) (path : Option Text) : Failure :=
  match flaw, path with
  | .zeroUnit, some t => .runtime .wrongType (flaw.words ++ " Received " ++ spelled t)
  | _, some t => .plain none (flaw.words ++ ", " ++ operation ++ " '" ++ t ++ "'")
  | _, none => .plain none (flaw.words ++ ", " ++ operation)

end DiskFlaw

namespace Disk

/-- What is in a place, among nodes. -/
def findNode (place : FilePlace) : List (FilePlace × FileNode) → Option FileNode
  | [] => none
  | (other, node) :: rest => if other = place then some node else findNode place rest

/-- What is in a place. -/
def node? (disk : Disk) (place : FilePlace) : Option FileNode :=
  if place = [] then some .directory else findNode place disk.nodes

/-- Something put into a place. -/
def put (disk : Disk) (place : FilePlace) (node : FileNode) : Disk :=
  { disk with nodes := (place, node) :: disk.nodes.filter fun entry ↦ entry.1 != place }

/-- Whether a name is too long for a disk: it has more than 255 octets. -/
def isTooLong (name : Text) : Bool := 255 < name.octets

/-- What keeps a path from being followed at all: it holds the unit zero, or it has more than 4095
octets. -/
def pathFlaw? (path : Text) : Option DiskFlaw :=
  if path.units.contains 0 then some .zeroUnit
  else if 4095 < path.octets then some .tooLong
  else none

/-- The place that names lead to. -/
def follow (disk : Disk) (place : FilePlace) : List Text → Except DiskFlaw FilePlace
  | [] => .ok place
  | name :: rest =>
    match disk.node? place with
    | none => .error .missing
    | some (.file _) => .error .notDirectory
    | some .directory =>
      if isTooLong name then .error .tooLong
      else if name = FilePath.here then follow disk place rest
      else if name = FilePath.above then follow disk place.dropLast rest
      else follow disk (place ++ [name]) rest

/-- The names of a path; a slash at the end asks for a directory. -/
def steps (path : Text) : List Text :=
  (FilePath.names path.mended).filter (!·.isEmpty)
    ++ if path.endsWith "/" then [FilePath.here] else []

/-- Where a path begins. -/
def origin (disk : Disk) (path : Text) : FilePlace :=
  if FilePath.isAbsolute path then [] else disk.home

/-- The place of a path. -/
def locate (disk : Disk) (path : Text) : Except DiskFlaw FilePlace :=
  match pathFlaw? path with
  | some flaw => .error flaw
  | none => if path.isEmpty then .error .missing else disk.follow (disk.origin path) (steps path)

/-- The text of a file. -/
def read (disk : Disk) (path : Text) : Except Failure Text :=
  match disk.locate path with
  | .error flaw => .error (flaw.failure "open" (some path))
  | .ok place =>
    match disk.node? place with
    | none => .error (DiskFlaw.missing.failure "open" (some path))
    | some .directory => .error (DiskFlaw.isDirectory.failure "read" none)
    | some (.file content) => .ok content

/-- A file with a new text, made from the old one. -/
def update (disk : Disk) (path : Text) (change : Text → Text) : Except Failure Disk :=
  match disk.locate path with
  | .error flaw => .error (flaw.failure "open" (some path))
  | .ok place =>
    match disk.node? place with
    | none => .ok (disk.put place (.file (change Text.empty)))
    | some .directory => .error (DiskFlaw.isDirectory.failure "open" (some path))
    | some (.file content) => .ok (disk.put place (.file (change content)))

/-- A file written. What is written is well-formed. -/
def write (disk : Disk) (path content : Text) : Except Failure Disk :=
  disk.update path fun _ ↦ content.mended

/-- A text added to a file. What is added is well-formed. -/
def append (disk : Disk) (path content : Text) : Except Failure Disk :=
  disk.update path fun old ↦ old ++ content.mended

/-- Directories made along names, where they are missing. -/
def makeAlong (disk : Disk) (place : FilePlace) : List Text → Except DiskFlaw Unit × Disk
  | [] => (.ok (), disk)
  | name :: rest =>
    if isTooLong name then (.error .tooLong, disk)
    else if name = FilePath.here then makeAlong disk place rest
    else if name = FilePath.above then makeAlong disk place.dropLast rest
    else
      let next := place ++ [name]
      match disk.node? next with
      | none => makeAlong (disk.put next .directory) next rest
      | some .directory => makeAlong disk next rest
      | some (.file _) => (.error (if rest.isEmpty then .taken else .notDirectory), disk)

/-- A directory made, with all that lead to it. -/
def makeDirectory (disk : Disk) (path : Text) : Except Failure Unit × Disk :=
  let (made, after) : Except DiskFlaw Unit × Disk := match pathFlaw? path with
    | some flaw => (.error flaw, disk)
    | none => disk.makeAlong (disk.origin path) (steps path)
  (made.mapError fun flaw ↦ flaw.failure "mkdir" (some path), after)

/-- The place above a place. -/
def parent (place : FilePlace) : FilePlace := place.dropLast

/-- A place as it is on a disk. -/
def written (place : FilePlace) : FilePlace := place.map Text.mended

/-- A disk with a home directory and files in it. -/
def ofFiles (home : FilePlace) (files : List (Text × Text)) : Disk :=
  let bare : Disk := ⟨written home, []⟩
  let rooted := (bare.makeDirectory (FilePath.placeText home)).2
  files.foldl (fun disk (path, content) ↦
    let place := FilePath.resolve home path
    match disk.makeDirectory (FilePath.placeText (parent place)) with
    | (.ok (), made) => made.put (written place) (.file content.mended)
    | (.error _, _) => disk) rooted

/-- The files below the home directory, by their paths from there. -/
def files (disk : Disk) : List (Text × Text) :=
  disk.nodes.filterMap fun (place, node) ↦
    match node with
    | .directory => none
    | .file content =>
      if disk.home.isPrefixOf place then some (FilePath.relative disk.home place, content) else none

/-- The files that are new or changed since an earlier state. -/
def changes (before after : Disk) : List (Text × Text) :=
  after.files.filter fun entry ↦ !before.files.contains entry

end Disk

/-- Changing files one after the other. What was changed before a failure stays. -/
abbrev Writing := ExceptT Failure (StateM Disk)

namespace Writing

/-- One change: the files are changed, or left as they are. -/
def change (f : Disk → Except Failure Disk) : Writing Unit :=
  ExceptT.mk fun disk ↦
    match f disk with
    | .ok changed => (.ok (), changed)
    | .error failure => (.error failure, disk)

/-- A directory made, with all that lead to it. -/
def makeDirectory (path : Text) : Writing Unit := ExceptT.mk fun disk ↦ disk.makeDirectory path

/-- What came of changes, and the files behind them. -/
def on {α : Type} (disk : Disk) (changes : Writing α) : Except Failure α × Disk :=
  changes.run.run disk

end Writing

end BrowserFlow
