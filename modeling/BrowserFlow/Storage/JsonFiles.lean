import BrowserFlow.Json.Reading
import BrowserFlow.Storage.Disk
import BrowserFlow.Value.Normal

/-!
Storage in files: a value under a path is a file of indented JSON below a base
directory. A path that leads to the base directory itself or out of it is
refused; what is loaded is normalised.
-/

set_option autoImplicit false
set_option relaxedAutoImplicit false

namespace BrowserFlow

namespace Json

/-- The value of a JSON text, normalised. -/
def readNormal? (t : Text) : Option Value := do
  let value ← read? t
  (Datum.ofValue value).normal.toOption

end Json

/-- Storage below a directory. -/
structure JsonFiles where
  /-- The directory. -/
  base : FilePlace

namespace JsonFiles

/-- Storage below the directory that a path means at a place. -/
def ofPath (home : FilePlace) (path : Text) : JsonFiles := ⟨FilePath.resolve home path⟩

/-- The written form of the base directory. -/
def baseText (storage : JsonFiles) : Text := FilePath.placeText storage.base

/-- Whether the way from the base directory stays below it. -/
def staysBelow (way : Text) : Bool :=
  !way.isEmpty && way != FilePath.above && !way.startsWith "../" && !FilePath.isAbsolute way

/-- The place of a path. -/
def place (storage : JsonFiles) (path : Text) : Except Failure FilePlace :=
  let target := FilePath.resolve storage.base path
  if staysBelow (FilePath.relative storage.base target) then .ok target
  else .error (.plain none
    ("Storage path \"" ++ path ++ "\" resolves outside " ++ storage.baseText))

/-- The text of a file; nothing at all is a word of its own. -/
def fileText (value : Option Value) : Text :=
  (match value with
    | some v => Json.writeIndented v
    | none => "undefined") ++ "\n"

/-- A value being saved: the directories on the way are made, and then the file is written. -/
def saving (storage : JsonFiles) (path : Text) (value : Option Value) : Writing Unit := do
  let target ← ExceptT.mk (pure (storage.place path))
  Writing.makeDirectory (FilePath.placeText (Disk.parent target))
  Writing.change fun disk ↦ disk.write (FilePath.placeText target) (fileText value)

/-- A value saved, if it can be. -/
def save (storage : JsonFiles) (path : Text) (value : Option Value) (disk : Disk) :
    Except Failure Disk :=
  let (saved, after) := Writing.on disk (storage.saving path value)
  saved.map fun _ ↦ after

/-- A value loaded. -/
def load (storage : JsonFiles) (path : Text) (disk : Disk) : Except Failure Value := do
  let target ← storage.place path
  let content ← disk.read (FilePath.placeText target)
  match Json.readNormal? content with
  | some value => .ok value
  | none => .error (.runtime .malformed "The text is not JSON")

end JsonFiles

end BrowserFlow
