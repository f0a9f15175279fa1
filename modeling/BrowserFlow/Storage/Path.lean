import BrowserFlow.Text.Fold

/-!
Paths of files. A place is the list of names that lead to it from the root; it
has no empty names and no names that stand for the place itself or the one
above. A path is text: names between slashes, from the root when it begins with
one. Resolving a path against a place gives a place.
-/

set_option autoImplicit false
set_option relaxedAutoImplicit false

namespace BrowserFlow

/-- A place in the tree of files: the names that lead to it from the root. -/
abbrev FilePlace := List Text

namespace FilePath

/-- The name for the place itself. -/
def here : Text := "."

/-- The name for the place above. -/
def above : Text := ".."

/-- Whether a path begins at the root. -/
def isAbsolute (path : Text) : Bool := path.startsWith "/"

/-- The names between the slashes of a path, empty ones included. -/
def names (path : Text) : List Text := path.splitOn '/'

/-- One name further: from a place, kept in reverse, to the next. -/
def push (reversed : List Text) (name : Text) : List Text :=
  if name = Text.empty ∨ name = here then reversed
  else if name = above then reversed.tail
  else name :: reversed

/-- The place that names lead to from a place. -/
def walk (start : FilePlace) (path : List Text) : FilePlace :=
  (path.foldl push start.reverse).reverse

/-- The place that a path means at a place. -/
def resolve (start : FilePlace) (path : Text) : FilePlace :=
  if isAbsolute path then walk [] (names path) else walk start (names path)

/-- The written form of a place. -/
def placeText (place : FilePlace) : Text := "/" ++ Text.join "/" place

/-- The names that lead from one place to another. -/
def relativeNames : FilePlace → FilePlace → List Text
  | name :: rest, other :: others =>
    if name = other then relativeNames rest others
    else (name :: rest).map (fun _ ↦ above) ++ other :: others
  | start, target => start.map (fun _ ↦ above) ++ target

/-- The path that leads from one place to another. -/
def relative (start target : FilePlace) : Text := Text.join "/" (relativeNames start target)

/-- One name further in a path that is being written shorter: names for the place above stay where
there is nothing left to go up from. -/
def pushShort (absolute : Bool) (reversed : List Text) (name : Text) : List Text :=
  if name = Text.empty ∨ name = here then reversed
  else if name = above then
    match reversed with
    | [] => if absolute then [] else [above]
    | last :: rest => if last = above then above :: last :: rest else rest
  else name :: reversed

/-- A path written shorter. -/
def normalize (path : Text) : Text :=
  let absolute := isAbsolute path
  let short := Text.join "/" ((names path).foldl (pushShort absolute) []).reverse
  let short := if short.isEmpty && !absolute then here else short
  let ending : Text := if path.endsWith "/" && !short.isEmpty then "/" else ""
  (if absolute then "/" else "") ++ short ++ ending

/-- Two paths one behind the other. -/
def join (first second : Text) : Text :=
  let parts := [first, second].filter (!·.isEmpty)
  if parts.isEmpty then here else normalize (Text.join "/" parts)

/-- The last name of a path; slashes behind it do not count. -/
def lastName (path : Text) : Text := (((names path).filter (!·.isEmpty)).getLast?).getD Text.empty

/-- The units of a name from its last point on, when something stands before the point. -/
def extensionUnits : List CodeUnit → Option (List CodeUnit)
  | [] => none
  | _ :: rest =>
    match extensionUnits rest with
    | some found => some found
    | none => if rest.head? = some ('.' : CodeUnit) then some rest else none

/-- The extension of a path, with its point. -/
def extension (path : Text) : Text :=
  let name := lastName path
  if name = above then Text.empty else ⟨(extensionUnits name.units).getD []⟩

end FilePath

end BrowserFlow
