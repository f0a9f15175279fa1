import BrowserFlow.Proofs.Workflow.DocumentOrder
import BrowserFlow.Proofs.Workflow.ResultKeys

/-!
Which result keys are warned about. A line of a report tells its place and what is remarkable there
(`StepWarning.eq_of_line`), since paths have no colon and keys have no quotation mark. While the
steps are visited in order, the first place of each key so far is noted (`Workflow.find?_noted`), so
that a step with a result collides with the first step of its key when that one comes earlier. Main
statement: of the steps of an accepted document, exactly those with a result are warned about whose
key an earlier step with a result has, or a declared variable that they do not write themselves
(`Workflow.keyWarnings_exact`).
-/

set_option autoImplicit false
set_option relaxedAutoImplicit false

namespace BrowserFlow

/-! ### Lines of warnings -/

/-- The mark behind paths. -/
def colon : CodeUnit := .ofChar ':'

/-- The mark around keys. -/
def quotation : CodeUnit := .ofChar '"'

theorem Place.notMem_mark {mark : CodeUnit} (hmark : mark = colon ∨ mark = quotation)
    (place : Place) : mark ∉ place.toText.units := by
  rcases hmark with rfl | rfl <;>
    exact notMem_toText (by decide) (by decide) (fun side ↦ by cases side <;> decide) place

/-- Different places have different paths. -/
theorem Place.eq_of_toText {first second : Place} (h : first.toText = second.toText) :
    first = second := by
  have hplace := congrArg ofText? h
  rw [ofText?_toText, ofText?_toText] at hplace
  exact Option.some.inj hplace

theorem Text.splitUnits_eq_singleton {separator : CodeUnit} {units piece : List CodeUnit}
    (h : splitUnits separator units = [piece]) : units = piece := by
  by_cases hmem : separator ∈ units
  · obtain ⟨us, vs, rfl⟩ := List.append_of_mem hmem
    rw [splitUnits_append_cons] at h
    have hlength := congrArg List.length h
    have hus := List.length_pos_of_ne_nil (splitUnits_ne_nil separator us)
    have hvs := List.length_pos_of_ne_nil (splitUnits_ne_nil separator vs)
    rw [List.length_append, List.length_singleton] at hlength
    omega
  · rw [splitUnits_of_not_mem hmem] at h
    exact List.singleton_inj.mp h

namespace StepWarning

/-- What a line says behind the path. -/
def message : StepWarning → Text
  | .idleRetry => ": retry settings have no effect without on_error \"retry\""
  | .collision key previous =>
    ": result key \"" ++ key ++ "\" is also bound by " ++ previous.toText
      ++ "; the later value wins"
  | .shadowing key =>
    ": result key \"" ++ key ++ "\" shadows workflow variable \"" ++ key ++ "\""

theorem line_eq (path : Text) (warning : StepWarning) :
    warning.line path = path ++ warning.message := by
  cases warning <;> simp only [line, message, Text.append_assoc]

theorem exists_message (warning : StepWarning) :
    ∃ units, warning.message.units = colon :: units := by
  have hopening : (": result key \"" : Text).units = colon :: (" result key \"" : Text).units := by
    decide +kernel
  cases warning with
  | idleRetry =>
    exact ⟨(" retry settings have no effect without on_error \"retry\"" : Text).units,
      by decide +kernel⟩
  | collision key previous =>
    simp only [message, Text.units_append, hopening, List.cons_append]
    exact ⟨_, rfl⟩
  | shadowing key =>
    simp only [message, Text.units_append, hopening, List.cons_append]
    exact ⟨_, rfl⟩

/-- What a collision says behind the key. -/
def boundBy (previous : Place) : Text :=
  " is also bound by " ++ previous.toText ++ "; the later value wins"

theorem notMem_boundBy (previous : Place) : quotation ∉ (boundBy previous).units :=
  List.not_mem_append (List.not_mem_append (by decide) (Place.notMem_mark (.inr rfl) previous))
    (by decide)

/-- A message in pieces, broken at the quotation marks. -/
def pieces : StepWarning → List (List CodeUnit)
  | .idleRetry => [(": retry settings have no effect without on_error " : Text).units,
      ("retry" : Text).units, []]
  | .collision key previous => (": result key " : Text).units ::
      (Text.splitUnits quotation key.units ++ [(boundBy previous).units])
  | .shadowing key => (": result key " : Text).units ::
      (Text.splitUnits quotation key.units ++ (" shadows workflow variable " : Text).units ::
        (Text.splitUnits quotation key.units ++ [[]]))

theorem splitUnits_message (warning : StepWarning) :
    Text.splitUnits quotation warning.message.units = warning.pieces := by
  have hopening : (": result key \"" : Text).units =
      (": result key " : Text).units ++ [quotation] := by decide
  cases warning with
  | idleRetry => decide +kernel
  | collision key previous =>
    have hclosing : ("\" is also bound by " : Text).units =
        quotation :: (" is also bound by " : Text).units := by decide
    have hunits : (message (.collision key previous)).units = (": result key " : Text).units ++
        quotation :: (key.units ++ quotation :: (boundBy previous).units) := by
      simp only [message, boundBy, Text.units_append, hopening, hclosing, List.append_assoc,
        List.nil_append, List.cons_append]
    rw [hunits, Text.splitUnits_append_cons, Text.splitUnits_append_cons,
      Text.splitUnits_of_not_mem (notMem_boundBy previous),
      Text.splitUnits_of_not_mem (by decide), pieces]
    rfl
  | shadowing key =>
    have hclosing : ("\" shadows workflow variable \"" : Text).units =
        quotation :: ((" shadows workflow variable " : Text).units ++ [quotation]) := by decide
    have hlast : ("\"" : Text).units = [quotation] := by decide
    have hunits : (message (.shadowing key)).units = (": result key " : Text).units ++
        quotation :: (key.units ++ quotation :: ((" shadows workflow variable " : Text).units ++
          quotation :: (key.units ++ quotation :: []))) := by
      simp only [message, Text.units_append, hopening, hclosing, hlast, List.append_assoc,
        List.nil_append, List.cons_append]
    rw [hunits, Text.splitUnits_append_cons, Text.splitUnits_append_cons,
      Text.splitUnits_append_cons, Text.splitUnits_append_cons,
      Text.splitUnits_of_not_mem (by decide), @Text.splitUnits_of_not_mem _
        (" shadows workflow variable " : Text).units (by decide), pieces]
    rfl

/-- Whether the key of a warning has no quotation mark. -/
def IsPlain : StepWarning → Prop
  | .idleRetry => True
  | .collision key _ => quotation ∉ key.units
  | .shadowing key => quotation ∉ key.units

theorem boundBy_injective {first second : Place}
    (h : (boundBy first).units = (boundBy second).units) : first = second := by
  have hcut := List.append_cancel_right h
  exact Place.eq_of_toText (congrArg Text.mk (List.append_cancel_left hcut))

/-- Only a shadowing ends with a quotation mark. -/
theorem pieces_collision_ne (key other : Text) (previous : Place) :
    pieces (.collision key previous) ≠ pieces (.shadowing other) := by
  intro h
  have hcollision : (pieces (.collision key previous)).getLast? =
      some (boundBy previous).units := by
    simp [pieces, List.getLast?_cons, List.getLast?_append]
  have hshadowing : (pieces (.shadowing other)).getLast? = some [] := by
    simp [pieces, List.getLast?_cons, List.getLast?_append]
  rw [h, hshadowing] at hcollision
  cases hcollision

theorem key_eq_of_pieces {key other : Text}
    (h : Text.splitUnits quotation key.units = [other.units]) : key = other :=
  congrArg Text.mk (Text.splitUnits_eq_singleton h)

/-- A message tells what is remarkable, when one of two keys that it could be about is plain. -/
theorem eq_of_message {warning other : StepWarning} (hplain : other.IsPlain)
    (h : warning.message = other.message) : warning = other := by
  have hpieces : warning.pieces = other.pieces := by
    rw [← splitUnits_message, ← splitUnits_message, h]
  cases warning with
  | idleRetry =>
    cases other with
    | idleRetry => rfl
    | collision key previous => exact absurd (List.cons.inj hpieces).1 (by decide)
    | shadowing key => exact absurd (List.cons.inj hpieces).1 (by decide)
  | collision key previous =>
    cases other with
    | idleRetry => exact absurd (List.cons.inj hpieces).1 (by decide)
    | collision key' previous' =>
      have hkeys := (List.cons.inj hpieces).2
      rw [Text.splitUnits_of_not_mem hplain] at hkeys
      obtain ⟨hkey, hbound⟩ := List.append_inj' hkeys rfl
      rw [boundBy_injective (List.singleton_inj.mp hbound), key_eq_of_pieces hkey]
    | shadowing key' => exact absurd hpieces (pieces_collision_ne key key' previous)
  | shadowing key =>
    cases other with
    | idleRetry => exact absurd (List.cons.inj hpieces).1 (by decide)
    | collision key' previous' =>
      exact absurd hpieces.symm (pieces_collision_ne key' key previous')
    | shadowing key' =>
      have hkeys := (List.cons.inj hpieces).2
      rw [Text.splitUnits_of_not_mem hplain] at hkeys
      have hlength := congrArg List.length hkeys
      simp only [List.length_append, List.length_cons, List.length_nil] at hlength
      obtain ⟨hkey, -⟩ := List.append_inj hkeys (by rw [List.length_singleton]; omega)
      rw [key_eq_of_pieces hkey]

/-- A line tells its place and what is remarkable there. -/
theorem eq_of_line {place place' : Place} {warning other : StepWarning} (hplain : other.IsPlain)
    (h : warning.line place.toText = other.line place'.toText) :
    place = place' ∧ warning = other := by
  rw [line_eq, line_eq] at h
  have hbehind : ∀ (place : Place) (warning : StepWarning),
      (place.toText ++ warning.message).units.takeWhile (· ≠ colon) = place.toText.units := by
    intro place warning
    obtain ⟨units, hunits⟩ := warning.exists_message
    have hpath : ∀ u ∈ place.toText.units, decide (u ≠ colon) = true := fun u hu ↦
      decide_eq_true fun heq ↦ Place.notMem_mark (.inl rfl) place (heq ▸ hu)
    rw [Text.units_append, hunits, List.takeWhile_append_of_pos hpath]
    simp
  have hunits : place.toText.units = place'.toText.units := by
    rw [← hbehind place warning, h, hbehind]
  obtain rfl := Place.eq_of_toText (congrArg Text.mk hunits)
  exact ⟨rfl, eq_of_message hplain (congrArg Text.mk
    (List.append_cancel_left (congrArg Text.units h)))⟩

end StepWarning

/-! ### The first step with a key -/

namespace Step

/-- Whether the result of a step is bound under a key. -/
def binds (key : Text) (step : Step) : Bool := step.hasResult && step.resultKey == key

variable {step : Step} {key : Text} {place previous : Place} {earlier : Entries Place}
  {declared : List Text}

theorem binds_iff : step.binds key = true ↔ step.hasResult = true ∧ step.resultKey = key := by
  simp [binds]

/-- A place is noted for a key when its step binds the key and none is noted so far. -/
theorem find?_noteKey (earlier : Entries Place) (place : Place) (step : Step) (key : Text) :
    (step.noteKey earlier place).find? key =
      (earlier.find? key).or (if step.binds key then some place else none) := by
  unfold noteKey binds
  cases hresult : step.hasResult with
  | false => simp
  | true =>
    cases hfound : earlier.find? step.resultKey with
    | none =>
      simp only [Option.isNone_none, Bool.and_self, if_true, Bool.true_and, beq_iff_eq]
      rw [Entries.find?_append earlier _ key place hfound]
      split
      · next heq => rw [← heq, hfound, Option.none_or]
      · rw [Option.or_none]
    | some noted =>
      simp only [Option.isNone_some, Bool.and_false, Bool.false_eq_true, if_false, Bool.true_and,
        beq_iff_eq]
      split
      · next heq => rw [← heq, hfound, Option.some_or]
      · rw [Option.or_none]

/-- The warnings about a key: a collision with what is noted, and a shadowing of a variable. -/
theorem mem_keyWarnings_iff {warning : StepWarning} :
    warning ∈ step.keyWarnings declared earlier ↔ step.hasResult = true ∧
      ((∃ previous, earlier.find? step.resultKey = some previous ∧
          warning = .collision step.resultKey previous) ∨
        step.resultKey ∈ declared ∧ step.assignsOwnKey = false ∧
          warning = .shadowing step.resultKey) := by
  unfold keyWarnings
  cases hresult : step.hasResult with
  | false => simp
  | true =>
    rw [if_pos rfl]
    dsimp only
    rw [List.mem_append]
    refine (or_congr ?_ ?_).trans (and_iff_right rfl).symm
    · cases earlier.find? step.resultKey with
      | none => simp
      | some noted => simp
    · cases step.assignsOwnKey <;> by_cases hdeclared : step.resultKey ∈ declared <;>
        simp [hdeclared]

theorem collision_mem_keyWarnings : .collision key previous ∈ step.keyWarnings declared earlier ↔
    step.binds key = true ∧ earlier.find? key = some previous := by
  rw [binds_iff, mem_keyWarnings_iff]
  constructor
  · rintro ⟨hresult, ⟨noted, hnoted, heq⟩ | ⟨-, -, heq⟩⟩
    · obtain ⟨rfl, rfl⟩ := StepWarning.collision.inj heq
      exact ⟨⟨hresult, rfl⟩, hnoted⟩
    · cases heq
  · rintro ⟨⟨hresult, rfl⟩, hnoted⟩
    exact ⟨hresult, .inl ⟨previous, hnoted, rfl⟩⟩

theorem shadowing_mem_keyWarnings : .shadowing key ∈ step.keyWarnings declared earlier ↔
    step.binds key = true ∧ key ∈ declared ∧ step.assignsOwnKey = false := by
  rw [binds_iff, mem_keyWarnings_iff]
  constructor
  · rintro ⟨hresult, ⟨noted, -, heq⟩ | ⟨hdeclared, hown, heq⟩⟩
    · cases heq
    · obtain rfl := StepWarning.shadowing.inj heq
      exact ⟨⟨hresult, rfl⟩, hdeclared, hown⟩
  · rintro ⟨⟨hresult, rfl⟩, hdeclared, hown⟩
    exact ⟨hresult, .inr ⟨hdeclared, hown, rfl⟩⟩

/-- The warnings about a step are about its own key, which is a name. -/
theorem isPlain_of_mem {warning : StepWarning}
    (h : warning ∈ step.retryWarnings ++ step.keyWarnings declared earlier) :
    warning.IsPlain := by
  have hkey : quotation ∉ step.resultKey.units := fun hmem ↦ by
    have hcontinues := Text.continuesName_of_isName step.resultKey_isName _ hmem
    revert hcontinues
    decide
  rcases List.mem_append.mp h with hmem | hmem
  · unfold retryWarnings at hmem
    split at hmem
    · obtain rfl := List.mem_singleton.mp hmem
      trivial
    · cases hmem
  · obtain ⟨-, ⟨_, -, rfl⟩ | ⟨-, -, rfl⟩⟩ := mem_keyWarnings_iff.mp hmem
    · exact hkey
    · exact hkey

end Step

namespace Workflow

/-- The first place of each key among some steps. -/
def noted (visited : List (Place × Step)) : Entries Place :=
  visited.foldl (fun earlier found ↦ found.2.noteKey earlier found.1) []

theorem noted_concat (visited : List (Place × Step)) (place : Place) (step : Step) :
    noted (visited ++ [(place, step)]) = step.noteKey (noted visited) place := by
  rw [noted, List.foldl_concat, noted]

/-- Among the steps visited so far, the first one with a key is noted. -/
theorem find?_noted (visited : List (Place × Step)) (key : Text) :
    (noted visited).find? key = (visited.find? fun found ↦ found.2.binds key).map Prod.fst := by
  induction visited using List.reverseRecOn with
  | nil => rfl
  | append_singleton visited found ih =>
    obtain ⟨place, step⟩ := found
    rw [noted_concat, Step.find?_noteKey, ih, List.find?_append, Option.map_or,
      List.find?_singleton]
    cases step.binds key <;> rfl

/-- A line among the warnings is about a step, given what is noted before it. -/
theorem mem_warningLines {declared : List Text} {line : Text} {visited rest : List (Place × Step)} :
    line ∈ warningLines declared (noted visited) rest ↔ ∃ before place step after,
      rest = before ++ (place, step) :: after ∧
      ∃ warning ∈ step.retryWarnings ++ step.keyWarnings declared (noted (visited ++ before)),
        warning.line place.toText = line := by
  induction rest generalizing visited with
  | nil => simp [warningLines]
  | cons found rest ih =>
    obtain ⟨place, step⟩ := found
    rw [warningLines, List.mem_append, List.mem_map, ← noted_concat, ih]
    constructor
    · rintro (⟨warning, hwarning, rfl⟩ | ⟨before, place', step', after, rfl, hwarned⟩)
      · exact ⟨[], place, step, rest, rfl, warning, by rwa [List.append_nil], rfl⟩
      · refine ⟨(place, step) :: before, place', step', after, rfl, ?_⟩
        rwa [List.append_assoc] at hwarned
    · rintro ⟨before, place', step', after, hsplit, warning, hwarning, hline⟩
      cases before with
      | nil =>
        obtain ⟨hfound, -⟩ := List.cons.inj hsplit
        obtain ⟨rfl, rfl⟩ := Prod.mk.inj hfound
        rw [List.append_nil] at hwarning
        exact .inl ⟨warning, hwarning, hline⟩
      | cons first before =>
        obtain ⟨rfl, hrest⟩ := List.cons.inj hsplit
        refine .inr ⟨before, place', step', after, hrest, warning, ?_, hline⟩
        rwa [List.append_assoc]

/-! ### Exactness -/

/-- Whether the step at a place is an action whose result is bound under a key. Steps that control
others and steps that end the run bind none. -/
def Binds (w : Workflow) (key : Text) (place : Place) : Prop :=
  ∃ header action, Step.stepAt? w.steps place = some (.act header action) ∧
    action.isStop = false ∧ (Step.act header action).resultKey = key

/-- Whether a place is the first one whose step binds a key. -/
def FirstBinds (w : Workflow) (key : Text) (place : Place) : Prop :=
  w.Binds key place ∧ ∀ other, w.Binds key other → ¬other.Before place

/-- Whether the step at a place writes a variable. -/
def Assigns (w : Workflow) (name : Text) (place : Place) : Prop :=
  ∃ header value append,
    Step.stepAt? w.steps place = some (.act header (.setVariable name value append))

variable {w : Workflow} {place other previous : Place} {step : Step} {key : Text}
  {before after : List (Place × Step)}

theorem binds_iff (hstep : Step.stepAt? w.steps place = some step) :
    w.Binds key place ↔ step.binds key = true := by
  rw [Step.binds_iff]
  constructor
  · rintro ⟨header, action, hfound, hstop, hkey⟩
    obtain rfl := Option.some.inj (hstep.symm.trans hfound)
    exact ⟨by simp [Step.hasResult, hstop], hkey⟩
  · rintro ⟨hresult, hkey⟩
    cases step with
    | act header action =>
      exact ⟨header, action, hstep, by simpa [Step.hasResult] using hresult, hkey⟩
    | branch header condition steps otherwise => cases hresult
    | loop header spec steps => cases hresult

/-- The steps located before a place are those at the places before it. -/
theorem mem_before_iff (hlocated : w.located = before ++ (place, step) :: after) {found : Step} :
    (other, found) ∈ before ↔
      Step.stepAt? w.steps other = some found ∧ other.Before place := by
  have horder := w.inOrder
  rw [Step.InOrder, hlocated, List.pairwise_append, List.pairwise_cons] at horder
  obtain ⟨-, ⟨hafter, -⟩, hbefore⟩ := horder
  constructor
  · intro hmem
    refine ⟨mem_located_iff.mp ?_, hbefore _ hmem _ (.head _)⟩
    rw [hlocated]
    exact List.mem_append_left _ hmem
  · rintro ⟨hfound, hother⟩
    have hmem := mem_located_iff.mpr hfound
    rw [hlocated, List.mem_append, List.mem_cons] at hmem
    rcases hmem with hmem | heq | hmem
    · exact hmem
    · obtain ⟨rfl, -⟩ := Prod.mk.inj heq
      exact absurd hother (Place.not_before_self other)
    · exact absurd hother (hafter _ hmem).asymm

/-- What is noted for a key before a place is the first step that binds it, if that is earlier. -/
theorem find?_noted_before (hlocated : w.located = before ++ (place, step) :: after) :
    (noted before).find? key = some previous ↔
      previous.Before place ∧ w.FirstBinds key previous := by
  rw [find?_noted, Option.map_eq_some_iff]
  constructor
  · rintro ⟨⟨previous, found⟩, hfound, rfl⟩
    obtain ⟨hbinds, first, rest, rfl, hnone⟩ := List.find?_eq_some_iff_append.mp hfound
    have hin : (previous, found) ∈ first ++ (previous, found) :: rest :=
      List.mem_append_right first (.head rest)
    obtain ⟨hstep, hbefore⟩ := (mem_before_iff hlocated).mp hin
    refine ⟨hbefore, (binds_iff hstep).mpr hbinds, fun other hother hearlier ↦ ?_⟩
    obtain ⟨header, action, hat, -⟩ := id hother
    rw [List.append_assoc, List.cons_append] at hlocated
    have hmem := (mem_before_iff hlocated).mpr ⟨hat, hearlier⟩
    have hother := (binds_iff hat).mp hother
    simpa [hother] using hnone _ hmem
  · rintro ⟨hbefore, hbinds, hfirst⟩
    obtain ⟨header, action, hat, -⟩ := id hbinds
    have hmem := (mem_before_iff hlocated).mpr ⟨hat, hbefore⟩
    obtain ⟨first, rest, rfl⟩ := List.append_of_mem hmem
    refine ⟨_, List.find?_eq_some_iff_append.mpr ⟨(binds_iff hat).mp hbinds, first, rest, rfl,
      fun found hfound ↦ ?_⟩, rfl⟩
    rw [List.append_assoc, List.cons_append] at hlocated
    obtain ⟨hstep, hearlier⟩ := (mem_before_iff hlocated).mp hfound
    rw [Bool.not_eq_true', ← Bool.not_eq_true, ← binds_iff hstep]
    exact fun hother ↦ hfirst _ hother hearlier

/-- A line among the warnings of an accepted document is about the step at its place, given what is
noted before it. -/
theorem mem_warnings_iff {document : Datum} {validated : Validated}
    (hvalid : validate document = .ok validated) {warning : StepWarning} :
    warning.line place.toText ∈ validated.warnings ↔ ∃ before step after,
      validated.workflow.located = before ++ (place, step) :: after ∧
      warning ∈ step.retryWarnings ++
        step.keyWarnings validated.workflow.declared (noted before) := by
  rw [(validate_eq_ok.mp hvalid).2.2]
  refine (@mem_warningLines _ _ [] _).trans ?_
  simp only [List.nil_append]
  constructor
  · rintro ⟨before, place', step, after, hlocated, other, hother, hline⟩
    obtain ⟨rfl, rfl⟩ := StepWarning.eq_of_line (Step.isPlain_of_mem hother) hline.symm
    exact ⟨before, step, after, hlocated, hother⟩
  · rintro ⟨before, step, after, hlocated, hmem⟩
    exact ⟨before, place, step, after, hlocated, warning, hmem, rfl⟩

theorem assignsOwnKey_iff (hstep : Step.stepAt? w.steps place = some step)
    (hkey : step.resultKey = key) : step.assignsOwnKey = true ↔ w.Assigns key place := by
  constructor
  · intro hown
    unfold Step.assignsOwnKey at hown
    split at hown
    · next header target value append =>
      obtain rfl := hkey.symm.trans (eq_of_beq hown).symm
      exact ⟨header, value, append, hstep⟩
    · cases hown
  · rintro ⟨header, value, append, hat⟩
    obtain rfl := Option.some.inj (hstep.symm.trans hat)
    exact beq_iff_eq.mpr hkey.symm

/-- The place of a step is the place of one of the located steps. -/
theorem exists_located (hstep : Step.stepAt? w.steps place = some step) :
    ∃ before after, w.located = before ++ (place, step) :: after :=
  List.append_of_mem (mem_located_iff.mpr hstep)

theorem stepAt?_of_located (hlocated : w.located = before ++ (place, step) :: after) :
    Step.stepAt? w.steps place = some step :=
  mem_located_iff.mp (hlocated ▸ List.mem_append_right before (.head after))

theorem not_mem_retryWarnings {warning : StepWarning} (h : warning ≠ .idleRetry) :
    warning ∉ step.retryWarnings := by
  unfold Step.retryWarnings
  split <;> simp [h]

section

variable {document : Datum} {validated : Validated}

/-- Steps collide exactly with the first step that binds their key, when that one is earlier. -/
theorem collision_iff (hvalid : validate document = .ok validated) :
    (StepWarning.collision key previous).line place.toText ∈ validated.warnings ↔
      validated.workflow.Binds key place ∧ previous.Before place ∧
        validated.workflow.FirstBinds key previous := by
  rw [mem_warnings_iff hvalid]
  constructor
  · rintro ⟨before, step, after, hlocated, hmem⟩
    have hkey := (List.mem_append.mp hmem).resolve_left (not_mem_retryWarnings (by simp))
    obtain ⟨hbinds, hnoted⟩ := Step.collision_mem_keyWarnings.mp hkey
    exact ⟨(binds_iff (stepAt?_of_located hlocated)).mpr hbinds,
      (find?_noted_before hlocated).mp hnoted⟩
  · rintro ⟨hbinds, hfirst⟩
    obtain ⟨header, action, hat, -⟩ := id hbinds
    obtain ⟨before, after, hlocated⟩ := exists_located hat
    exact ⟨before, _, after, hlocated, List.mem_append_right _ (Step.collision_mem_keyWarnings.mpr
      ⟨(binds_iff hat).mp hbinds, (find?_noted_before hlocated).mpr hfirst⟩)⟩

/-- Steps shadow exactly the declared variables that their keys name and that they do not write. -/
theorem shadowing_iff (hvalid : validate document = .ok validated) :
    (StepWarning.shadowing key).line place.toText ∈ validated.warnings ↔
      validated.workflow.Binds key place ∧ key ∈ validated.workflow.declared ∧
        ¬validated.workflow.Assigns key place := by
  rw [mem_warnings_iff hvalid]
  have hown : ∀ {step : Step}, Step.stepAt? validated.workflow.steps place = some step →
      step.binds key = true →
        (step.assignsOwnKey = false ↔ ¬validated.workflow.Assigns key place) := by
    intro step hat hbinds
    rw [← assignsOwnKey_iff hat (Step.binds_iff.mp hbinds).2, Bool.not_eq_true]
  constructor
  · rintro ⟨before, step, after, hlocated, hmem⟩
    have hkey := (List.mem_append.mp hmem).resolve_left (not_mem_retryWarnings (by simp))
    obtain ⟨hbinds, hdeclared, hother⟩ := Step.shadowing_mem_keyWarnings.mp hkey
    have hat := stepAt?_of_located hlocated
    exact ⟨(binds_iff hat).mpr hbinds, hdeclared, (hown hat hbinds).mp hother⟩
  · rintro ⟨hbinds, hdeclared, hother⟩
    obtain ⟨header, action, hat, -⟩ := id hbinds
    obtain ⟨before, after, hlocated⟩ := exists_located hat
    have hstep := (binds_iff hat).mp hbinds
    exact ⟨before, _, after, hlocated, List.mem_append_right _ (Step.shadowing_mem_keyWarnings.mpr
      ⟨hstep, hdeclared, (hown hat hstep).mpr hother⟩)⟩

/-- When a step before a place binds a key, the first one that does is before the place. -/
theorem exists_firstBinds (hstep : Step.stepAt? w.steps place = some step)
    (hearlier : other.Before place) (hother : w.Binds key other) :
    ∃ first, first.Before place ∧ w.FirstBinds key first := by
  obtain ⟨before, after, hlocated⟩ := exists_located hstep
  obtain ⟨header, action, hat, -⟩ := id hother
  have hmem := (mem_before_iff hlocated).mpr ⟨hat, hearlier⟩
  cases hnoted : (noted before).find? key with
  | some first => exact ⟨first, (find?_noted_before hlocated).mp hnoted⟩
  | none =>
    rw [find?_noted, Option.map_eq_none_iff, List.find?_eq_none] at hnoted
    exact absurd ((binds_iff hat).mp hother) (hnoted _ hmem)

/-- Warnings about result keys are exact. There is a collision at a place exactly when its step and
a step before it bind the same key, and it names the first step that binds the key. There is a
shadowing exactly when the step binds the key of a declared variable that it does not write. -/
theorem keyWarnings_exact (hvalid : validate document = .ok validated) (place : Place) :
    (∀ key previous,
      (StepWarning.collision key previous).line place.toText ∈ validated.warnings ↔
        validated.workflow.Binds key place ∧ previous.Before place ∧
          validated.workflow.FirstBinds key previous) ∧
    ((∃ key previous,
      (StepWarning.collision key previous).line place.toText ∈ validated.warnings) ↔
        ∃ key earlier, validated.workflow.Binds key place ∧ earlier.Before place ∧
          validated.workflow.Binds key earlier) ∧
    ∀ key, (StepWarning.shadowing key).line place.toText ∈ validated.warnings ↔
      validated.workflow.Binds key place ∧ key ∈ validated.workflow.declared ∧
        ¬validated.workflow.Assigns key place := by
  refine ⟨fun key previous ↦ collision_iff hvalid, ?_, fun key ↦ shadowing_iff hvalid⟩
  constructor
  · rintro ⟨key, previous, hmem⟩
    obtain ⟨hbinds, hbefore, hfirst⟩ := (collision_iff hvalid).mp hmem
    exact ⟨key, previous, hbinds, hbefore, hfirst.1⟩
  · rintro ⟨key, earlier, hbinds, hbefore, hearlier⟩
    obtain ⟨header, action, hat, -⟩ := id hbinds
    obtain ⟨first, hfirst⟩ := exists_firstBinds hat hbefore hearlier
    exact ⟨key, first, (collision_iff hvalid).mpr ⟨hbinds, hfirst⟩⟩

end

/-- A document that binds two keys twice, each in a list of a step that controls others. -/
def twiceNamed : Datum :=
  let click (name selector : Text) : Datum :=
    .object [("name", .text name), ("action", .text "click"), ("selector", .text selector)] []
  .object [("name", .text "twice"), ("version", .text "1"),
    ("variables", .object [("title", .text "")] []), ("steps", .sequence [
      .object [("name", .text "check"), ("action", .text "if"),
        ("value", .object [("left", .number 1), ("operator", .text "=="), ("right", .number 1)] []),
        ("steps", .sequence [click "Go" "#a", .object [("name", .text "Title"),
          ("action", .text "set_variable"), ("selector", .text "title"), ("value", .text "a")] []]),
        ("else_steps", .sequence [click "go!" "#b"])] [],
      click "title" "h1",
      .object [("name", .text "go"), ("action", .text "stop")] []])] []

/-- The lines of its warnings. -/
def twiceNamedWarnings : List Text :=
  [StepWarning.line (Place.toText ⟨[(0, .otherwise)], 0⟩) (.collision "go" ⟨[(0, .body)], 0⟩),
    StepWarning.line (Place.toText ⟨[], 1⟩) (.collision "title" ⟨[(0, .body)], 1⟩),
    StepWarning.line (Place.toText ⟨[], 1⟩) (.shadowing "title")]

/-- The warnings name the first steps with each key, and one of these writes the variable that its
key names. -/
theorem keyWarnings_exact_twiceNamed : ∃ validated, validate twiceNamed = .ok validated ∧
    validated.warnings = twiceNamedWarnings ∧
    validated.workflow.FirstBinds "go" ⟨[(0, .body)], 0⟩ ∧
    validated.workflow.FirstBinds "title" ⟨[(0, .body)], 1⟩ ∧
    validated.workflow.Assigns "title" ⟨[(0, .body)], 1⟩ := by
  have hlines : (validate twiceNamed).toOption.any (fun validated ↦
      validated.warnings == twiceNamedWarnings) = true := by decide +kernel
  obtain ⟨validated, hvalid, hwarnings⟩ := (Option.any_eq_true _ _).mp hlines
  have hvalid := validate_of_toOption hvalid
  have hwarnings := eq_of_beq hwarnings
  have hexact := keyWarnings_exact hvalid
  have hgo := ((hexact ⟨[(0, .otherwise)], 0⟩).1 "go" ⟨[(0, .body)], 0⟩).mp
    (hwarnings ▸ .head _)
  have htitle := ((hexact ⟨[], 1⟩).1 "title" ⟨[(0, .body)], 1⟩).mp
    (hwarnings ▸ .tail _ (.head _))
  have hdeclared := (((hexact ⟨[], 1⟩).2.2 "title").mp
    (hwarnings ▸ .tail _ (.tail _ (.head _)))).2.1
  refine ⟨validated, hvalid, hwarnings, hgo.2.2, htitle.2.2, ?_⟩
  have hsilent : (StepWarning.shadowing "title").line (Place.toText ⟨[(0, .body)], 1⟩) ∉
      validated.warnings := by
    rw [hwarnings]
    decide +kernel
  by_contra hother
  exact hsilent (((hexact ⟨[(0, .body)], 1⟩).2.2 "title").mpr
    ⟨htitle.2.2.1, hdeclared, hother⟩)

end Workflow

end BrowserFlow
