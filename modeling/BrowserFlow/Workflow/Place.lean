import BrowserFlow.Workflow.Basic

/-!
Places of steps. A list of steps is the one of the workflow or belongs to a step
that controls others; a step is where its list is, at an index. Every place
leads back to its step, and its written form is the path that reports show.
-/

set_option autoImplicit false
set_option relaxedAutoImplicit false

namespace BrowserFlow

/-- The lists of a step that controls others. -/
inductive Side where
  /-- The body of a loop, or the first branch. -/
  | body
  /-- The second branch. -/
  | otherwise
  deriving DecidableEq

namespace Side

/-- The name of a list in documents. -/
def name : Side → Text
  | .body => "steps"
  | .otherwise => "else_steps"

end Side

/-- Where a list of steps is: the ways down to it from the steps of the workflow, the last way
first. A way is the index of a step and one of its lists. -/
abbrev Site := List (Nat × Side)

/-- Where a step is. -/
structure Place where
  /-- Where its list is. -/
  site : Site
  /-- Its index in the list. -/
  index : Nat
  deriving DecidableEq

namespace Site

/-- The written form of a site. -/
def toText : Site → Text
  | [] => Side.body.name
  | (index, side) :: above => toText above ++ "[" ++ Text.ofNat index ++ "]." ++ side.name

end Site

namespace Place

/-- The written form of a place. -/
def toText (place : Place) : Text :=
  Site.toText place.site ++ "[" ++ Text.ofNat place.index ++ "]"

/-- A list of the step at a place. -/
def list (place : Place) (side : Side) : Site := (place.index, side) :: place.site

end Place

namespace Step

/-- A list of a step, when the step has it. -/
def list? (side : Side) : Step → Option (List Step)
  | .act _ _ => none
  | .branch _ _ steps otherwise =>
    match side with
    | .body => some steps
    | .otherwise => otherwise
  | .loop _ _ steps =>
    match side with
    | .body => some steps
    | .otherwise => none

/-- The list of steps at a site, looked for from a list downwards. -/
def listAt? (steps : List Step) : Site → Option (List Step)
  | [] => some steps
  | (index, side) :: above => do
    let owners ← listAt? steps above
    (← owners[index]?).list? side

/-- The step at a place, looked for from a list downwards. -/
def stepAt? (steps : List Step) (place : Place) : Option Step := do
  (← listAt? steps place.site)[place.index]?

mutual

/-- A step in its place, followed by the steps below it. -/
def located (place : Place) : Step → List (Place × Step)
  | .act header action => [(place, .act header action)]
  | .branch header condition steps otherwise =>
    (place, .branch header condition steps otherwise)
      :: (locatedFrom (place.list .body) 0 steps
        ++ locatedOtherwise (place.list .otherwise) otherwise)
  | .loop header spec steps =>
    (place, .loop header spec steps) :: locatedFrom (place.list .body) 0 steps

/-- The steps of a list from an index on, each followed by the steps below it. -/
def locatedFrom (site : Site) (index : Nat) : List Step → List (Place × Step)
  | [] => []
  | step :: rest => located ⟨site, index⟩ step ++ locatedFrom site (index + 1) rest

/-- The steps of the second branch. -/
def locatedOtherwise (site : Site) : Option (List Step) → List (Place × Step)
  | none => []
  | some steps => locatedFrom site 0 steps

end

end Step

namespace Workflow

/-- The steps of a workflow in their places, in the order of the document. -/
def located (w : Workflow) : List (Place × Step) := Step.locatedFrom [] 0 w.steps

end Workflow

end BrowserFlow
