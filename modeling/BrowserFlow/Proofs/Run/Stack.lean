import BrowserFlow.Proofs.Document.Parts
import BrowserFlow.Proofs.Run.Trace
import BrowserFlow.Proofs.Run.Turns
import Mathlib.Data.List.Chain

/-!
The stack of a walk is a chain through the steps of the workflow. The last frame is
the list of the workflow, and every other frame belongs to the step that was taken
last from the list below it: a branch of it, the loop, or the body of the loop that
the frame sits on (`Frame.SitsOn`). Each frame has what is left of the list at its
site (`Frame.Placed`). Every change of the frames keeps this (`Walk.Restacks.chained`),
and it keeps of every branch when it was entered and that its condition had chosen it
then (`Walk.Restacks.recalls`). So the stack has at most two frames for each level of
nested steps, and one more (`Frame.Chained.length_le`), at every turn of every run
(`Workflow.run_chained`).
-/

set_option autoImplicit false
set_option relaxedAutoImplicit false

namespace BrowserFlow

variable {σ : Type}

/-! ### Lists of steps and how deep they are nested -/

namespace Step

variable {steps : List Step}

/-- The steps of the list at a site; a second branch that is absent has none. -/
def listIn (steps : List Step) (site : Site) : List Step := (listAt? steps site).getD []

theorem stepAt?_of_listIn {site : Site} {index : Nat} {step : Step}
    (h : (listIn steps site)[index]? = some step) :
    stepAt? steps ⟨site, index⟩ = some step := by
  unfold listIn at h
  cases hlist : listAt? steps site with
  | none => simp [hlist] at h
  | some list =>
    rw [hlist] at h
    simpa [stepAt?, hlist] using h

/-- The branch that is taken is a list of its step. -/
theorem chosen_of_approach {scope : Scope} {step : Step} {side : Side} {chosen : List Step}
    (h : step.approach scope = .branch side chosen) :
    step.kind = .branch ∧ chosen = (step.list? side).getD [] := by
  have hdemand := demand_of_approach h (by simp) (by simp)
  cases step with
  | act _ _ => simp [demand] at hdemand
  | branch header condition steps otherwise =>
    refine ⟨rfl, ?_⟩
    rw [demand] at hdemand
    split at hdemand
    · simp at hdemand
    all_goals
      obtain ⟨rfl, rfl⟩ := Approach.branch.inj hdemand
      rfl
  | loop _ spec _ =>
    rw [demand] at hdemand
    split at hdemand <;> simp at hdemand

mutual

/-- How many levels of steps there are in a step. -/
def depth : Step → Nat
  | .act _ _ => 0
  | .branch _ _ steps otherwise => 1 + max (depthOf steps) (depthOfOtherwise otherwise)
  | .loop _ _ steps => 1 + depthOf steps

/-- How many levels of steps there are in the steps of a list. -/
def depthOf : List Step → Nat
  | [] => 0
  | step :: rest => max (depth step) (depthOf rest)

/-- How many levels of steps there are in the steps of the second branch. -/
def depthOfOtherwise : Option (List Step) → Nat
  | none => 0
  | some steps => depthOf steps

end

theorem depth_le_depthOf {index : Nat} {step : Step} (h : steps[index]? = some step) :
    step.depth ≤ depthOf steps := by
  induction steps generalizing index with
  | nil => simp at h
  | cons first rest ih =>
    rw [depthOf]
    cases index with
    | zero =>
      obtain rfl := Option.some.inj h
      exact Nat.le_max_left _ _
    | succ index => exact (ih h).trans (Nat.le_max_right _ _)

theorem depthOf_lt_depth {step : Step} {side : Side} {chosen : List Step}
    (h : step.list? side = some chosen) : depthOf chosen < step.depth := by
  cases step with
  | act header action => simp [list?] at h
  | branch header condition body otherwise =>
    cases side with
    | body =>
      obtain rfl := Option.some.inj h
      simp only [depth]
      omega
    | otherwise =>
      obtain rfl : otherwise = some chosen := h
      simp only [depth, depthOfOtherwise]
      omega
  | loop header spec body =>
    cases side with
    | body =>
      obtain rfl := Option.some.inj h
      simp only [depth]
      omega
    | otherwise => simp [list?] at h

theorem depth_pos_of_branch {step : Step} (h : step.kind = .branch) : 0 < step.depth := by
  cases step with
  | act header action => cases action <;> cases h
  | branch header condition body otherwise =>
    rw [depth]
    omega
  | loop header spec body => cases h

/-- A list has at most the levels of the whole that are not above it. -/
theorem length_add_depthOf_le {site : Site} {list : List Step}
    (h : listAt? steps site = some list) : site.length + depthOf list ≤ depthOf steps := by
  induction site generalizing list with
  | nil =>
    obtain rfl := Option.some.inj h
    rw [List.length_nil, Nat.zero_add]
  | cons way above ih =>
    obtain ⟨index, side⟩ := way
    obtain ⟨owners, howners, hrest⟩ := Option.bind_eq_some_iff.mp h
    obtain ⟨owner, howner, hside⟩ := Option.bind_eq_some_iff.mp hrest
    have hinner := depthOf_lt_depth hside
    have houter := depth_le_depthOf howner
    have habove := ih howners
    rw [List.length_cons]
    omega

/-- A step has at most the levels of the whole that are not above it. -/
theorem length_add_depth_le {place : Place} {step : Step} (h : stepAt? steps place = some step) :
    place.site.length + step.depth ≤ depthOf steps := by
  obtain ⟨list, hlist, hstep⟩ := Option.bind_eq_some_iff.mp h
  have hinner := depth_le_depthOf hstep
  have houter := length_add_depthOf_le hlist
  omega

end Step

/-! ### Frames -/

namespace Frame

variable {steps : List Step} {stack below : List Frame} {frame other : Frame}

/-- The step that was taken last from the list of a frame. -/
def LastTook (steps : List Step) (owner : Opened) : Frame → Prop
  | .steps _ site index _ => owner.place.site = site ∧ owner.place.index + 1 = index ∧
      Step.stepAt? steps owner.place = some owner.step
  | .loop _ _ _ => False

theorem LastTook.stepAt? {owner : Opened} (h : frame.LastTook steps owner) :
    Step.stepAt? steps owner.place = some owner.step := by
  cases frame with
  | steps rest site index above => exact h.2.2
  | loop above body cursor => exact h.elim

/-- What the frame below a frame is. Below a branch and below a loop is the list that their step was
taken from last; below any other list is the loop that the list is the body of. -/
def SitsOn (steps : List Step) (frame lower : Frame) : Prop :=
  match frame with
  | .steps _ site _ (some owner) => lower.LastTook steps owner ∧ owner.step.kind = .branch ∧
      ∃ side, site = owner.place.list side
  | .steps _ site _ none =>
    ∃ owner body cursor, lower = .loop owner body cursor ∧ site = owner.place.list .body
  | .loop owner _ _ => lower.LastTook steps owner ∧ owner.step.kind = .loop

/-- A frame holds what is left of the list at its site, from its index on; a loop holds its body. -/
def Placed (steps : List Step) : Frame → Prop
  | .steps rest site index _ => index ≤ (Step.listIn steps site).length ∧
      rest = (Step.listIn steps site).drop index
  | .loop owner body _ => Step.listAt? steps (owner.place.list .body) = some body

/-- The list of the workflow, which belongs to no step. -/
def IsBottom : Frame → Prop
  | .steps _ site _ owner => site = [] ∧ owner = none
  | .loop _ _ _ => False

/-- Frames that are a chain through the steps: the last one is the list of the workflow, and each
sits on the one below it. -/
structure Chained (steps : List Step) (stack : List Frame) : Prop where
  bottom : ∀ frame ∈ stack.getLast?, frame.IsBottom
  links : stack.IsChain fun frame lower ↦ frame.SitsOn steps lower
  placed : ∀ frame ∈ stack, frame.Placed steps

section Chained

theorem Chained.tail (h : Chained steps (frame :: below)) : Chained steps below := by
  refine ⟨fun last hlast ↦ h.bottom last ?_, (List.isChain_cons.mp h.links).2,
    (List.forall_mem_cons.mp h.placed).2⟩
  rw [List.getLast?_cons, Option.mem_def.mp hlast]
  rfl

/-- A frame that sits on the topmost frame of a chain makes the chain longer. -/
theorem Chained.push (h : Chained steps (frame :: below)) (hsits : other.SitsOn steps frame)
    (hplaced : other.Placed steps) : Chained steps (other :: frame :: below) := by
  refine ⟨fun last hlast ↦ h.bottom last ?_, List.isChain_cons_cons.mpr ⟨hsits, h.links⟩,
    List.forall_mem_cons.mpr ⟨hplaced, h.placed⟩⟩
  rwa [List.getLast?_cons_cons] at hlast

/-- The topmost frame of a chain may become another one that sits on the same. -/
theorem Chained.replace (h : Chained steps (frame :: below))
    (hsits : ∀ lower, frame.SitsOn steps lower → other.SitsOn steps lower)
    (hbottom : frame.IsBottom → other.IsBottom) (hplaced : other.Placed steps) :
    Chained steps (other :: below) := by
  obtain ⟨hlast, hlinks, hall⟩ := h
  obtain ⟨hhead, hbelow⟩ := List.isChain_cons.mp hlinks
  refine ⟨?_, List.isChain_cons.mpr ⟨fun lower hlower ↦ hsits lower (hhead lower hlower), hbelow⟩,
    List.forall_mem_cons.mpr ⟨hplaced, (List.forall_mem_cons.mp hall).2⟩⟩
  cases below with
  | nil =>
    intro last hother
    obtain rfl := Option.some.inj hother
    exact hbottom (hlast frame rfl)
  | cons lower others =>
    rw [List.getLast?_cons_cons] at hlast ⊢
    exact hlast

end Chained

/-! ### How high a chain is -/

/-- How many frames there are at most from a frame downwards. -/
def height : Frame → Nat
  | .steps _ site _ _ => 2 * site.length + 1
  | .loop owner _ _ => 2 * owner.place.site.length + 2

/-- A frame is at least one higher than the frame that it sits on. -/
theorem SitsOn.height_lt {lower : Frame} (h : frame.SitsOn steps lower) :
    lower.height < frame.height := by
  have hlist : ∀ {owner : Opened}, lower.LastTook steps owner →
      lower.height = 2 * owner.place.site.length + 1 := by
    intro owner htook
    cases lower with
    | steps _ site index _ =>
      obtain ⟨hsite, -, -⟩ := htook
      rw [height, hsite]
    | loop _ _ _ => exact htook.elim
  cases frame with
  | steps rest site index owner =>
    cases owner with
    | some owner =>
      obtain ⟨htook, -, side, rfl⟩ := h
      rw [hlist htook, height, Place.list, List.length_cons]
      omega
    | none =>
      obtain ⟨owner, body, cursor, rfl, rfl⟩ := h
      rw [height, height, Place.list, List.length_cons]
      omega
  | loop owner body cursor =>
    rw [hlist h.1, height]
    omega

theorem Chained.length_le_height (h : Chained steps (frame :: below)) :
    (frame :: below).length ≤ frame.height := by
  induction below generalizing frame with
  | nil => cases frame <;> simp [height]
  | cons lower others ih =>
    have hlower := ih h.tail
    have hlt := (List.isChain_cons_cons.mp h.links).1.height_lt
    rw [List.length_cons]
    omega

/-- No frame of a chain is higher than the levels of the steps allow. -/
theorem Chained.height_le (h : Chained steps (frame :: below)) :
    frame.height ≤ 2 * Step.depthOf steps + 1 := by
  have hsits : ∀ lower ∈ below.head?, frame.SitsOn steps lower := (List.isChain_cons.mp h.links).1
  have hplaced := h.placed frame List.mem_cons_self
  cases frame with
  | loop owner body cursor =>
    have hlevels := Step.length_add_depthOf_le hplaced
    rw [Place.list, List.length_cons] at hlevels
    rw [height]
    omega
  | steps rest site index owner =>
    cases below with
    | nil =>
      obtain ⟨rfl, rfl⟩ := h.bottom _ rfl
      rw [height, List.length_nil]
      omega
    | cons lower others =>
      have hlower := hsits lower rfl
      cases owner with
      | none =>
        -- The body is at a list of the steps because its loop, which is below it, is placed there.
        obtain ⟨owner, body, cursor, rfl, rfl⟩ := hlower
        have hlevels := Step.length_add_depthOf_le (h.tail.placed _ List.mem_cons_self)
        rw [height]
        omega
      | some owner =>
        obtain ⟨htook, hkind, side, rfl⟩ := hlower
        have hlevels := Step.length_add_depth_le htook.stepAt?
        have hpositive := Step.depth_pos_of_branch hkind
        rw [height, Place.list, List.length_cons]
        omega

/-- A chain has at most two frames for each level of the steps, and one more. -/
theorem Chained.length_le (h : Chained steps stack) :
    stack.length ≤ 2 * Step.depthOf steps + 1 := by
  cases stack with
  | nil => exact Nat.zero_le _
  | cons frame below => exact h.length_le_height.trans h.height_le

/-! ### The branches that were chosen -/

/-- A frame of a branch holds what is left of steps that its step was said to have chosen, with the
frames below it as they are. -/
def IsChosen (said : Opened → Side → List Step → List Frame → Prop) (below : List Frame) :
    Frame → Prop
  | .steps rest site index (some owner) => ∃ side chosen, site = owner.place.list side ∧
      rest = chosen.drop index ∧ said owner side chosen below
  | _ => True

/-- Each frame of a branch holds what is left of steps that its step was said to have chosen. -/
def Recalls (said : Opened → Side → List Step → List Frame → Prop) : List Frame → Prop
  | [] => True
  | frame :: below => frame.IsChosen said below ∧ Recalls said below

variable {said others : Opened → Side → List Step → List Frame → Prop}

theorem Recalls.mono (h : Recalls said stack)
    (hsaid : ∀ owner side chosen below, said owner side chosen below →
      others owner side chosen below) : Recalls others stack := by
  induction stack with
  | nil => trivial
  | cons frame below ih =>
    obtain ⟨hfirst, hbelow⟩ := h
    refine ⟨?_, ih hbelow⟩
    match frame with
    | .steps rest site index (some owner) =>
      obtain ⟨side, chosen, hsite, hrest, hchosen⟩ := hfirst
      exact ⟨side, chosen, hsite, hrest, hsaid owner side chosen below hchosen⟩
    | .steps _ _ _ none => trivial
    | .loop _ _ _ => trivial

end Frame

namespace Walk

/-! ### What a turn keeps -/

variable {steps : List Step} {scope : Scope} {before behind : List Frame}

/-- Frames whose topmost list gives its next step away are a chain still, and that step is the one
that was taken last. -/
theorem chained_took {step : Step} {rest : List Step} {site : Site} {index : Nat}
    {owner : Option Opened} {below : List Frame} (startedAt : Number)
    (h : Frame.Chained steps (.steps (step :: rest) site index owner :: below)) :
    Frame.Chained steps (.steps rest site (index + 1) owner :: below) ∧
      (Frame.steps rest site (index + 1) owner).LastTook steps
        ⟨step, ⟨site, index⟩, startedAt⟩ := by
  obtain ⟨-, hrest⟩ := h.placed _ List.mem_cons_self
  have hstep : (Step.listIn steps site)[index]? = some step := by
    rw [← List.head?_drop, ← hrest, List.head?_cons]
  have hindex : index < (Step.listIn steps site).length := (List.getElem?_eq_some_iff.mp hstep).1
  refine ⟨h.replace (fun _ hsits ↦ ?_) id ⟨hindex, ?_⟩, rfl, rfl, Step.stepAt?_of_listIn hstep⟩
  · cases owner <;> exact hsits
  · rw [← List.tail_drop, ← hrest, List.tail_cons]

/-- Frames that are a chain are one behind every change of them. -/
theorem Restacks.chained (h : Restacks scope before behind)
    (hchained : Frame.Chained steps before) : Frame.Chained steps behind := by
  cases h with
  | popped => exact hchained.tail
  | passed => exact (chained_took 0 hchained).1
  | @branched step rest site index owner below side chosen startedAt hfound =>
    obtain ⟨hlower, htook⟩ := chained_took startedAt hchained
    obtain ⟨hkind, rfl⟩ := Step.chosen_of_approach hfound
    refine hlower.push ⟨htook, hkind, side, rfl⟩ ⟨Nat.zero_le _, ?_⟩
    rw [Step.listIn, Step.listAt?_list, htook.stepAt?]
    rfl
  | @looped step rest site index owner below body cursor startedAt hfound =>
    obtain ⟨hlower, htook⟩ := chained_took startedAt hchained
    obtain ⟨header, spec, rfl, -⟩ := Step.eq_loop_of_approach hfound
    refine hlower.push ⟨htook, rfl⟩ ?_
    rw [Frame.Placed, Step.listAt?_list, htook.stepAt?]
    rfl
  | @turned owner body cursor below turn hnext =>
    have hbody : Step.listAt? steps (owner.place.list .body) = some body :=
      hchained.placed _ List.mem_cons_self
    have hlower : Frame.Chained steps (.loop owner body turn.cursor :: below) :=
      hchained.replace (fun _ hsits ↦ hsits) id hbody
    refine hlower.push ⟨owner, body, turn.cursor, rfl, rfl⟩ ⟨Nat.zero_le _, ?_⟩
    rw [Step.listIn, hbody]
    rfl

theorem recalls_took {said : Opened → Side → List Step → List Frame → Prop} {step : Step}
    {rest : List Step} {site : Site} {index : Nat} {owner : Option Opened} {below : List Frame}
    (h : Frame.Recalls said (.steps (step :: rest) site index owner :: below)) :
    Frame.Recalls said (.steps rest site (index + 1) owner :: below) := by
  obtain ⟨hfirst, hbelow⟩ := h
  refine ⟨?_, hbelow⟩
  cases owner with
  | none => trivial
  | some owner =>
    obtain ⟨side, chosen, hsite, hrest, hchosen⟩ := hfirst
    refine ⟨side, chosen, hsite, ?_, hchosen⟩
    rw [← List.tail_drop, ← hrest, List.tail_cons]

/-- A change of the frames keeps what was said of their branches, when it is said of the branch that
the change itself may have taken. -/
theorem Restacks.recalls {said : Opened → Side → List Step → List Frame → Prop}
    (h : Restacks scope before behind)
    (htaken : ∀ owner side chosen below, owner.step.approach scope = .branch side chosen →
      behind = .steps chosen (owner.place.list side) 0 (some owner) :: below →
      said owner side chosen below)
    (hrecalls : Frame.Recalls said before) : Frame.Recalls said behind := by
  cases h with
  | popped => exact hrecalls.2
  | passed => exact recalls_took hrecalls
  | branched hfound =>
    exact ⟨⟨_, _, rfl, rfl, htaken _ _ _ _ hfound rfl⟩, recalls_took hrecalls⟩
  | looped hfound => exact ⟨trivial, recalls_took hrecalls⟩
  | turned hnext => exact ⟨trivial, trivial, hrecalls.2⟩

/-! ### Every walk that is reached -/

variable {setting : Setting σ} {first walk : Walk σ}

/-- At an earlier turn on the way to a walk, a step was visited whose condition chose some steps,
and those were put on the frames as they were. -/
def Chose (setting : Setting σ) (first walk : Walk σ) (owner : Opened) (side : Side)
    (chosen : List Step) (below : List Frame) : Prop :=
  ∃ entering entered, Reaches setting first entering ∧ entering.turn setting = .going entered ∧
    Reaches setting entered walk ∧ owner.step.approach entering.live.scope = .branch side chosen ∧
    entered.stack = .steps chosen (owner.place.list side) 0 (some owner) :: below

theorem Reaches.chained (h : Reaches setting first walk)
    (hfirst : Frame.Chained steps first.stack) : Frame.Chained steps walk.stack := by
  induction h with
  | start => exact hfirst
  | turn _ hturn ih => exact ((moves_turn _).restacks hturn).chained ih

theorem Reaches.recalls (h : Reaches setting first walk)
    (hfirst : Frame.Recalls (Chose setting first first) first.stack) :
    Frame.Recalls (Chose setting first walk) walk.stack := by
  induction h with
  | start => exact hfirst
  | turn hreaches hturn ih =>
    refine ((moves_turn _).restacks hturn).recalls ?_ (ih.mono ?_)
    · intro owner side chosen below hfound hstack
      exact ⟨_, _, hreaches, hturn, .start, hfound, hstack⟩
    · rintro owner side chosen below ⟨entering, entered, hbefore, hentered, hbehind, hchosen⟩
      exact ⟨entering, entered, hbefore, hentered, hbehind.turn hturn, hchosen⟩

end Walk

namespace Workflow

variable {host : Host σ} {options : RunParameters} {live : Live σ} {walk : Walk σ}
  {validated : Validated}

/-- At every turn of a run the frames are a chain through the steps of its workflow, each branch
among them is the one that the condition of its step chose when the step was taken, and there are at
most two frames for each level of the steps, and one more. -/
theorem run_chained (hreaches : Walk.Reaches (validated.workflow.setting host options)
      (firstWalk validated host options live) walk) :
    Frame.Chained validated.workflow.steps walk.stack ∧
      Frame.Recalls (Walk.Chose (validated.workflow.setting host options)
        (firstWalk validated host options live) walk) walk.stack ∧
      walk.stack.length ≤ 2 * Step.depthOf validated.workflow.steps + 1 := by
  have hfirst : Frame.Chained validated.workflow.steps
      (firstWalk validated host options live).stack := by
    refine ⟨fun frame hlast ↦ ?_, .singleton _, fun frame hframe ↦ ?_⟩
    · obtain rfl := Option.some.inj hlast
      exact ⟨rfl, rfl⟩
    · obtain rfl := List.mem_singleton.mp hframe
      exact ⟨Nat.zero_le _, rfl⟩
  have hchained := hreaches.chained hfirst
  exact ⟨hchained, hreaches.recalls ⟨trivial, trivial⟩, hchained.length_le⟩

/-- A document with a loop in a branch of a loop. -/
def nestedBranch : Datum :=
  .object [("name", .text "nested"), ("version", .text "1"), ("steps", .sequence [
    .object [("name", .text "twice"), ("action", .text "loop"),
      ("value", .object [("type", .text "repeat"), ("times", .number 2)] []),
      ("steps", .sequence [
        .object [("name", .text "check"), ("action", .text "if"),
          ("value", .object [("left", .number 1), ("operator", .text "equals"),
            ("right", .number 2)] []),
          ("steps", .sequence [
            .object [("name", .text "skip"), ("action", .text "click"),
              ("selector", .text "#a")] []]),
          ("else_steps", .sequence [
            .object [("name", .text "again"), ("action", .text "loop"),
              ("value", .object [("type", .text "repeat"), ("times", .number 1)] []),
              ("steps", .sequence [
                .object [("name", .text "press"), ("action", .text "click"),
                  ("selector", .text "#b")] []])] []])] []])] []])] []

/-- In the inner loop there are six frames above each other, of at most seven. -/
theorem run_chained_nestedBranch :
    ∃ validated, ∃ walk : Walk Unit, validate nestedBranch = .ok validated ∧
      Walk.Reaches (validated.workflow.setting refusing (.standard "nested"))
        (firstWalk validated refusing (.standard "nested") (idle 0 .quiet ())) walk ∧
      walk.stack.length = 6 ∧ Step.depthOf validated.workflow.steps = 3 ∧
      Frame.Chained validated.workflow.steps walk.stack ∧
      Frame.Recalls (Walk.Chose (validated.workflow.setting refusing (.standard "nested"))
        (firstWalk validated refusing (.standard "nested") (idle 0 .quiet ())) walk)
        walk.stack := by
  have hreached : ((validate nestedBranch).toOption.map fun validated ↦
      (((firstWalk validated refusing (.standard "nested") (idle 0 .quiet ())).ahead
        (validated.workflow.setting refusing (.standard "nested")) 5).map (·.stack.length),
        Step.depthOf validated.workflow.steps)) = some (some 6, 3) := by decide +kernel
  obtain ⟨validated, hfound, hshape⟩ := Option.map_eq_some_iff.mp hreached
  obtain ⟨hwalk, hdepth⟩ := Prod.mk.inj hshape
  obtain ⟨walk, hahead, hlength⟩ := Option.map_eq_some_iff.mp hwalk
  have hreaches := Walk.reaches_of_ahead hahead
  obtain ⟨hchained, hrecalls, -⟩ := run_chained hreaches
  exact ⟨validated, walk, validate_of_toOption hfound, hreaches, hlength, hdepth, hchained,
    hrecalls⟩

end Workflow

end BrowserFlow
