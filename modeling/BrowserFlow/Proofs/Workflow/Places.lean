import BrowserFlow.Workflow.Place

/-!
Places and the steps at them. The steps at the places of a list are the steps of
the list, those of the lists of a step are found through the step
(`Step.stepAt?_list`), and a step that is found at a place is among the located
steps (`Step.mem_locatedFrom`).
-/

set_option autoImplicit false
set_option relaxedAutoImplicit false

namespace BrowserFlow

namespace Site

/-- The places of the steps that a site is in, the innermost first. -/
def owners : Site → List Place
  | [] => []
  | (index, _) :: above => ⟨above, index⟩ :: owners above

theorem owners_list (place : Place) (side : Side) :
    owners (place.list side) = place :: owners place.site := rfl

end Site

namespace Step

variable {steps : List Step}

theorem isControl_of_list? {step : Step} {side : Side} {chosen : List Step}
    (h : step.list? side = some chosen) : step.isControl = true := by
  cases step with
  | act header action => simp [list?] at h
  | branch header condition body otherwise => rfl
  | loop header spec body => rfl

/-- A list of a step is found through the step. -/
theorem listAt?_list (steps : List Step) (place : Place) (side : Side) :
    listAt? steps (place.list side) = (stepAt? steps place).bind (list? side) := by
  unfold stepAt? Place.list
  rw [listAt?]
  cases listAt? steps place.site <;> rfl

/-- A step of a list of a step is found through the step. -/
theorem stepAt?_list (steps : List Step) (place : Place) (side : Side) (index : Nat) :
    stepAt? steps ⟨place.list side, index⟩ =
      ((stepAt? steps place).bind (list? side)).bind (·[index]?) := by
  rw [← listAt?_list]
  rfl

/-! ### Located steps -/

theorem located_subset_locatedFrom {site : Site} {index : Nat} {step : Step}
    (h : steps[index]? = some step) (start : Nat) :
    located ⟨site, start + index⟩ step ⊆ locatedFrom site start steps := by
  induction steps generalizing start index with
  | nil => simp at h
  | cons first rest ih =>
    rw [locatedFrom]
    cases index with
    | zero =>
      obtain rfl := Option.some.inj h
      exact List.subset_append_left _ _
    | succ index =>
      have hrest := ih h (start + 1)
      rw [Nat.add_right_comm, Nat.add_assoc] at hrest
      exact List.Subset.trans hrest (List.subset_append_right _ _)

theorem mem_located_self (place : Place) (step : Step) : (place, step) ∈ located place step := by
  cases step <;> simp [located]

theorem locatedFrom_subset_located {place : Place} {step : Step} {side : Side}
    {chosen : List Step} (h : step.list? side = some chosen) :
    locatedFrom (place.list side) 0 chosen ⊆ located place step := by
  intro found hfound
  cases step with
  | act header action => simp [list?] at h
  | branch header condition body otherwise =>
    cases side with
    | body =>
      obtain rfl := Option.some.inj h
      simp [located, hfound]
    | otherwise =>
      obtain rfl : otherwise = some chosen := h
      simp [located, locatedOtherwise, hfound]
  | loop header spec body =>
    cases side with
    | body =>
      obtain rfl := Option.some.inj h
      simp [located, hfound]
    | otherwise => simp [list?] at h

/-- What is located in a list at a site is located from the top. -/
theorem locatedFrom_subset (site : Site) {found : List Step}
    (h : listAt? steps site = some found) :
    locatedFrom site 0 found ⊆ locatedFrom [] 0 steps := by
  induction site generalizing found with
  | nil =>
    obtain rfl := Option.some.inj h
    exact List.Subset.refl _
  | cons way above ih =>
    obtain ⟨index, side⟩ := way
    obtain ⟨owners, howners, hrest⟩ := Option.bind_eq_some_iff.mp h
    obtain ⟨owner, howner, hside⟩ := Option.bind_eq_some_iff.mp hrest
    have hinner : locatedFrom (Place.list ⟨above, index⟩ side) 0 found ⊆
        located ⟨above, index⟩ owner := locatedFrom_subset_located hside
    have houter : located ⟨above, index⟩ owner ⊆ locatedFrom above 0 owners := by
      simpa using located_subset_locatedFrom howner 0
    exact List.Subset.trans (List.Subset.trans hinner houter) (ih howners)

/-- A step that is found at a place is located there. -/
theorem mem_locatedFrom {place : Place} {step : Step} (h : stepAt? steps place = some step) :
    (place, step) ∈ locatedFrom [] 0 steps := by
  obtain ⟨found, hfound, hstep⟩ := Option.bind_eq_some_iff.mp h
  have hself : located place step ⊆ locatedFrom place.site 0 found := by
    simpa using located_subset_locatedFrom hstep 0
  exact locatedFrom_subset place.site hfound (hself (mem_located_self place step))

end Step

end BrowserFlow
