import BrowserFlow.Proofs.Workflow.Paths
import BrowserFlow.Proofs.Workflow.Places
import Mathlib.Data.List.Lex

/-!
The order of steps in a document. Going down to two places leg by leg, the first legs that differ
decide which place comes first: the body comes before the other branch and a lesser index before a
greater one, and a step comes before the steps in its lists (`Place.Before`). The located steps of a
workflow are the steps at its places (`Workflow.mem_located_iff`), in this order
(`Workflow.inOrder`).
-/

set_option autoImplicit false
set_option relaxedAutoImplicit false

namespace BrowserFlow

/-! ### The order of places -/

/-- Whether a leg goes to an earlier list, or to an earlier step of the same list. -/
def Leg.Before (first second : Leg) : Prop :=
  first.side = .body ∧ second.side = .otherwise ∨
    first.side = second.side ∧ first.index < second.index

instance : Std.Asymm Leg.Before where
  asymm first second h hback := by
    rcases h with ⟨hfirst, hsecond⟩ | ⟨hside, hindex⟩ <;>
      rcases hback with ⟨hsecond', hfirst'⟩ | ⟨hside', hindex'⟩
    · rw [hfirst] at hfirst'
      cases hfirst'
    · rw [hfirst, hsecond] at hside'
      cases hside'
    · rw [hfirst', hsecond'] at hside
      cases hside
    · omega

namespace Place

/-- The legs down to a place. -/
def legs (place : Place) : List Leg := legsOf place.site place.index

/-- Whether a place comes before another one in a document. -/
def Before (first second : Place) : Prop := List.Lex Leg.Before first.legs second.legs

theorem Before.asymm {first second : Place} (h : first.Before second) : ¬second.Before first :=
  fun hback ↦
    List.Lex.asymm Leg.Before |>.asymm _ _ h hback

theorem not_before_self (place : Place) : ¬place.Before place := fun h ↦ h.asymm h

variable {stem : List Leg} {a b : Leg} {first second place : Place}

/-- Behind the same legs, the next ones decide. -/
theorem before_of_legs (h : a.Before b) (hfirst : stem ++ [a] <+: first.legs)
    (hsecond : stem ++ [b] <+: second.legs) : first.Before second := by
  obtain ⟨more, hmore⟩ := hfirst
  obtain ⟨others, hothers⟩ := hsecond
  rw [Before, ← hmore, ← hothers, List.append_assoc, List.append_assoc]
  exact List.Lex.append_left _ (.rel h) stem

/-- A place comes before the places below it. -/
theorem before_of_below (h : place.legs ++ [a] <+: second.legs) : place.Before second := by
  obtain ⟨more, hmore⟩ := h
  rw [Before, ← hmore, List.append_assoc]
  simpa using List.Lex.append_left Leg.Before (.nil : List.Lex _ [] (a :: more)) place.legs

theorem exists_legsOf (site : Site) :
    ∃ stem side, ∀ index, legsOf site index = stem ++ [⟨side, index⟩] := by
  cases site with
  | nil => exact ⟨[], .body, fun _ ↦ rfl⟩
  | cons way above => exact ⟨legsOf above way.1, way.2, fun _ ↦ rfl⟩

end Place

/-! ### Located steps -/

namespace Step

open Place

/-- Whether located steps are in order. -/
def InOrder (located : List (Place × Step)) : Prop :=
  located.Pairwise fun first second ↦ first.1.Before second.1

/-- The steps of a list of a step come behind the step. -/
theorem inOrder_cons {place : Place} {step : Step} {found : List (Place × Step)}
    (hbelow : ∀ inner ∈ found, ∃ leg, place.legs ++ [leg] <+: inner.1.legs)
    (hfound : InOrder found) :
    (∀ inner ∈ (place, step) :: found, place.legs <+: inner.1.legs) ∧
      InOrder ((place, step) :: found) := by
  constructor
  · intro inner hinner
    rcases List.mem_cons.mp hinner with rfl | hinner
    · exact List.prefix_refl _
    · obtain ⟨leg, hleg⟩ := hbelow inner hinner
      exact (List.prefix_append _ _).trans hleg
  · refine List.pairwise_cons.mpr ⟨fun inner hinner ↦ ?_, hfound⟩
    obtain ⟨leg, hleg⟩ := hbelow inner hinner
    exact before_of_below hleg

mutual

/-- The steps located at a place are below it and in order. -/
theorem inOrder_located (place : Place) : ∀ step : Step,
    (∀ found ∈ located place step, place.legs <+: found.1.legs) ∧ InOrder (located place step)
  | .act header action => inOrder_cons (fun _ hinner ↦ by cases hinner) .nil
  | .branch header condition steps otherwise => by
    obtain ⟨hbody, hsteps⟩ := inOrder_locatedFrom (place.list .body) 0 steps
    obtain ⟨hother, hothers⟩ := inOrder_locatedOtherwise (place.list .otherwise) otherwise
    refine inOrder_cons (fun inner hinner ↦ ?_) (List.pairwise_append.mpr
      ⟨hsteps, hothers, fun first hfirst second hsecond ↦ ?_⟩)
    · rcases List.mem_append.mp hinner with hinner | hinner
      · obtain ⟨j, -, hj⟩ := hbody inner hinner
        exact ⟨_, hj⟩
      · obtain ⟨j, hj⟩ := hother inner hinner
        exact ⟨_, hj⟩
    · obtain ⟨j, -, hj⟩ := hbody first hfirst
      obtain ⟨k, hk⟩ := hother second hsecond
      exact before_of_legs (.inl ⟨rfl, rfl⟩) hj hk
  | .loop header spec steps => by
    obtain ⟨hbody, hsteps⟩ := inOrder_locatedFrom (place.list .body) 0 steps
    refine inOrder_cons (fun inner hinner ↦ ?_) hsteps
    obtain ⟨j, -, hj⟩ := hbody inner hinner
    exact ⟨_, hj⟩

/-- The steps located in a list from an index on are at or below the places from there on, and in
order. -/
theorem inOrder_locatedFrom (site : Site) (index : Nat) : ∀ steps : List Step,
    (∀ found ∈ locatedFrom site index steps, ∃ j, index ≤ j ∧ legsOf site j <+: found.1.legs) ∧
      InOrder (locatedFrom site index steps)
  | [] => by simp [locatedFrom, InOrder]
  | step :: rest => by
    obtain ⟨hfirst, hstep⟩ := inOrder_located ⟨site, index⟩ step
    obtain ⟨hbehind, hrest⟩ := inOrder_locatedFrom site (index + 1) rest
    constructor
    · intro found hfound
      rcases List.mem_append.mp hfound with hfound | hfound
      · exact ⟨index, Nat.le_refl index, hfirst found hfound⟩
      · obtain ⟨j, hj, hlegs⟩ := hbehind found hfound
        exact ⟨j, Nat.le_of_succ_le hj, hlegs⟩
    · refine List.pairwise_append.mpr ⟨hstep, hrest, fun first hin second hsecond ↦ ?_⟩
      obtain ⟨j, hj, hlegs⟩ := hbehind second hsecond
      have hearlier : legsOf site index <+: first.1.legs := hfirst first hin
      obtain ⟨stem, side, hstem⟩ := exists_legsOf site
      rw [hstem] at hearlier hlegs
      refine before_of_legs ?_ hearlier hlegs
      exact .inr ⟨rfl, hj⟩

/-- The same for the second branch. -/
theorem inOrder_locatedOtherwise (site : Site) : ∀ otherwise : Option (List Step),
    (∀ found ∈ locatedOtherwise site otherwise, ∃ j, legsOf site j <+: found.1.legs) ∧
      InOrder (locatedOtherwise site otherwise)
  | none => by simp [locatedOtherwise, InOrder]
  | some steps => by
    obtain ⟨hbelow, hsteps⟩ := inOrder_locatedFrom site 0 steps
    exact ⟨fun found hfound ↦ (hbelow found hfound).imp fun _ h ↦ h.2, hsteps⟩

end

mutual

/-- What is located at the place of a step and below it is found there. -/
theorem stepAt?_of_mem_located {steps : List Step} {found : Place × Step} (place : Place) :
    ∀ step : Step, stepAt? steps place = some step → found ∈ located place step →
      stepAt? steps found.1 = some found.2
  | .act header action, hplace, hfound => by
    obtain rfl := List.mem_singleton.mp hfound
    exact hplace
  | .branch header condition body otherwise, hplace, hfound => by
    rcases List.mem_cons.mp hfound with rfl | hfound
    · exact hplace
    rcases List.mem_append.mp hfound with hfound | hfound
    · refine stepAt?_of_mem_locatedFrom (place.list .body) 0 body (fun j ↦ ?_) hfound
      rw [stepAt?_list, hplace, Nat.zero_add]
      rfl
    · refine stepAt?_of_mem_locatedOtherwise (place.list .otherwise) otherwise
        (fun others hothers j ↦ ?_) hfound
      rw [stepAt?_list, hplace, hothers]
      rfl
  | .loop header spec body, hplace, hfound => by
    rcases List.mem_cons.mp hfound with rfl | hfound
    · exact hplace
    refine stepAt?_of_mem_locatedFrom (place.list .body) 0 body (fun j ↦ ?_) hfound
    rw [stepAt?_list, hplace, Nat.zero_add]
    rfl

/-- What is located in a list from an index on is found there. -/
theorem stepAt?_of_mem_locatedFrom {steps : List Step} {found : Place × Step} (site : Site)
    (index : Nat) : ∀ rest : List Step, (∀ j, stepAt? steps ⟨site, index + j⟩ = rest[j]?) →
      found ∈ locatedFrom site index rest → stepAt? steps found.1 = some found.2
  | [], _, hfound => by cases hfound
  | step :: rest, hplaces, hfound => by
    rcases List.mem_append.mp hfound with hfound | hfound
    · exact stepAt?_of_mem_located ⟨site, index⟩ step (hplaces 0) hfound
    · refine stepAt?_of_mem_locatedFrom site (index + 1) rest (fun j ↦ ?_) hfound
      rw [Nat.add_assoc, Nat.add_comm 1 j]
      exact hplaces (j + 1)

/-- The same for the second branch. -/
theorem stepAt?_of_mem_locatedOtherwise {steps : List Step} {found : Place × Step} (site : Site) :
    ∀ otherwise : Option (List Step),
      (∀ others, otherwise = some others → ∀ j, stepAt? steps ⟨site, j⟩ = others[j]?) →
      found ∈ locatedOtherwise site otherwise → stepAt? steps found.1 = some found.2
  | none, _, hfound => by cases hfound
  | some others, hplaces, hfound => by
    refine stepAt?_of_mem_locatedFrom site 0 others (fun j ↦ ?_) hfound
    rw [Nat.zero_add]
    exact hplaces others rfl j

end

end Step

namespace Workflow

variable {w : Workflow} {place : Place} {step : Step}

/-- The located steps of a workflow are the steps at its places. -/
theorem mem_located_iff : (place, step) ∈ w.located ↔ Step.stepAt? w.steps place = some step := by
  refine ⟨fun h ↦ ?_, Step.mem_locatedFrom⟩
  refine Step.stepAt?_of_mem_locatedFrom [] 0 w.steps (fun j ↦ ?_) h
  rw [Nat.zero_add]
  rfl

/-- The located steps of a workflow are in the order of the document. -/
theorem inOrder (w : Workflow) : Step.InOrder w.located :=
  (Step.inOrder_locatedFrom [] 0 w.steps).2

end Workflow

end BrowserFlow
