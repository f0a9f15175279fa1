import BrowserFlow.Proofs.Text.Splitting
import BrowserFlow.Storage.JsonFiles
import Mathlib.Data.List.Basic

/-!
Places and the paths that mean them. Whatever path is resolved against a place,
the result is a place: none of its names is empty, holds a slash or points to the
place itself or above it (`FilePath.isPlace_resolve`). The written form of a place
is a path that means it (`FilePath.resolve_placeText`) and that cannot be written
shorter (`FilePath.normalize_placeText`).

The way from one place to another tells whether it leads down. Between a place and
one below it, the way is what is left of the names (`FilePath.relativeNames_append`);
otherwise it begins by going up (`FilePath.head?_relativeNames`). So the tests on
the written way let pass what lies below a place and nothing else
(`JsonFiles.staysBelow_relative_iff`).
-/

set_option autoImplicit false
set_option relaxedAutoImplicit false

namespace BrowserFlow

namespace FilePath

variable {name : Text} {place start base target parts reversed : List Text}

/-! ### Places -/

/-- A name that a place can have. -/
structure IsPart (name : Text) : Prop where
  /-- It is not empty. -/
  ne_empty : name ≠ Text.empty
  /-- It is not the name for the place itself. -/
  ne_here : name ≠ here
  /-- It is not the name for the place above. -/
  ne_above : name ≠ above
  /-- It holds no slash. -/
  no_slash : ('/' : CodeUnit) ∉ name.units

instance (name : Text) : Decidable (IsPart name) :=
  decidable_of_iff (name ≠ Text.empty ∧ name ≠ here ∧ name ≠ above ∧ ('/' : CodeUnit) ∉ name.units)
    ⟨fun ⟨hempty, hhere, habove, hslash⟩ ↦ ⟨hempty, hhere, habove, hslash⟩,
      fun h ↦ ⟨h.ne_empty, h.ne_here, h.ne_above, h.no_slash⟩⟩

/-- Names that lead to a place. -/
def IsPlace (place : FilePlace) : Prop := ∀ name ∈ place, IsPart name

instance (place : FilePlace) : Decidable (IsPlace place) :=
  inferInstanceAs (Decidable (∀ name ∈ place, IsPart name))

/-- A place that lies strictly below another: it has all its names in order, and more. -/
def IsBelow (base place : FilePlace) : Prop := base <+: place ∧ base ≠ place

theorem isPlace_nil : IsPlace [] := by simp [IsPlace]

theorem IsPlace.append (hstart : IsPlace start) (hparts : IsPlace parts) :
    IsPlace (start ++ parts) := by
  intro name hmem
  rcases List.mem_append.mp hmem with h | h
  · exact hstart name h
  · exact hparts name h

theorem IsPlace.of_append_right (h : IsPlace (start ++ parts)) : IsPlace parts :=
  fun name hmem ↦ h name (List.mem_append_right _ hmem)

theorem isBelow_append (hne : parts ≠ []) : IsBelow base (base ++ parts) :=
  ⟨List.prefix_append _ _, fun h ↦ hne (by simpa using h)⟩

/-- What lies below a place is what further names lead to from there. -/
theorem isBelow_iff : IsBelow base place ↔ ∃ parts, parts ≠ [] ∧ place = base ++ parts := by
  constructor
  · rintro ⟨⟨parts, rfl⟩, hne⟩
    exact ⟨parts, fun h ↦ hne (by simp [h]), rfl⟩
  · rintro ⟨parts, hne, rfl⟩
    exact isBelow_append hne

/-! ### Paths resolved against a place -/

theorem push_of_isPart (h : IsPart name) (reversed : List Text) :
    push reversed name = name :: reversed := by
  simp [push, h.ne_empty, h.ne_here, h.ne_above]

theorem isPlace_push (hplace : IsPlace reversed) (hname : ('/' : CodeUnit) ∉ name.units) :
    IsPlace (push reversed name) := by
  unfold push
  split
  · exact hplace
  · next hsome =>
    split
    · exact fun other hmem ↦ hplace other (List.mem_of_mem_tail hmem)
    · next habove =>
      obtain ⟨hempty, hhere⟩ := not_or.mp hsome
      exact List.forall_mem_cons.mpr ⟨⟨hempty, hhere, habove, hname⟩, hplace⟩

theorem isPlace_walk (hstart : IsPlace start)
    (hparts : ∀ name ∈ parts, ('/' : CodeUnit) ∉ name.units) : IsPlace (walk start parts) := by
  have hfold : ∀ reversed, IsPlace reversed → IsPlace (parts.foldl push reversed) := by
    induction parts with
    | nil => exact fun _ h ↦ h
    | cons name rest ih =>
      obtain ⟨hname, hrest⟩ := List.forall_mem_cons.mp hparts
      exact fun reversed h ↦ ih hrest _ (isPlace_push h hname)
  exact fun name hmem ↦ hfold start.reverse
    (fun other h ↦ hstart other (List.mem_reverse.mp h)) name (List.mem_reverse.mp hmem)

/-- A path means a place, wherever it is resolved. -/
theorem isPlace_resolve (hstart : IsPlace start) (path : Text) : IsPlace (resolve start path) := by
  have hnames : ∀ name ∈ names path, ('/' : CodeUnit) ∉ name.units :=
    fun name hmem ↦ Text.not_mem_of_mem_splitOn hmem
  unfold resolve
  split
  · exact isPlace_walk isPlace_nil hnames
  · exact isPlace_walk hstart hnames

theorem foldl_push_of_isPlace (h : IsPlace parts) (reversed : List Text) :
    parts.foldl push reversed = parts.reverse ++ reversed := by
  induction parts generalizing reversed with
  | nil => rfl
  | cons name rest ih =>
    obtain ⟨hname, hrest⟩ := List.forall_mem_cons.mp h
    rw [List.foldl_cons, push_of_isPart hname, ih hrest, List.reverse_cons, List.append_assoc]
    rfl

theorem walk_of_isPlace (h : IsPlace parts) (start : FilePlace) :
    walk start parts = start ++ parts := by
  rw [walk, foldl_push_of_isPlace h, List.reverse_append, List.reverse_reverse,
    List.reverse_reverse]

/-! ### The written form of a place -/

theorem slash_eq : (("/" : String) : Text) = ⟨['/']⟩ := by decide

theorem names_join (hne : place ≠ []) (hplace : IsPlace place) :
    names (Text.join "/" place) = place := by
  rw [names, slash_eq]
  exact Text.splitOn_join hne fun name hmem ↦ (hplace name hmem).no_slash

theorem names_slash_append (path : Text) : names ("/" ++ path) = Text.empty :: names path := by
  rw [slash_eq]
  change (Text.splitUnits '/' ([] ++ ('/' : CodeUnit) :: path.units)).map Text.mk = _
  rw [Text.splitUnits_append_cons]
  rfl

theorem names_placeText (hne : place ≠ []) (hplace : IsPlace place) :
    names (placeText place) = Text.empty :: place := by
  rw [placeText, names_slash_append, names_join hne hplace]

theorem isAbsolute_placeText (place : FilePlace) : isAbsolute (placeText place) = true := by
  rw [isAbsolute, placeText, Text.startsWith, slash_eq]
  simp

/-- A path that begins at the root has nothing before its first slash. -/
theorem head?_names_of_isAbsolute {path : Text} (h : isAbsolute path = true) :
    (names path).head? = some Text.empty := by
  obtain ⟨rest, hrest⟩ := List.isPrefixOf_iff_prefix.mp h
  have hpath : path = "/" ++ (⟨rest⟩ : Text) := congrArg Text.mk hrest.symm
  rw [hpath, names_slash_append]
  rfl

/-- A path made of the names of a place does not begin at the root. -/
theorem isAbsolute_join (hne : place ≠ []) (hplace : IsPlace place) :
    isAbsolute (Text.join "/" place) = false := by
  by_contra h
  have hhead := head?_names_of_isAbsolute (eq_true_of_ne_false h)
  rw [names_join hne hplace] at hhead
  exact (hplace _ (List.mem_of_head? hhead)).ne_empty rfl

/-- The written form of a place means it, wherever it is resolved. -/
theorem resolve_placeText (hplace : IsPlace place) (start : FilePlace) :
    resolve start (placeText place) = place := by
  rw [resolve, if_pos (isAbsolute_placeText place)]
  by_cases hne : place = []
  · subst hne
    decide
  · rw [names_placeText hne hplace]
    exact walk_of_isPlace hplace []

/-- A path made of the names of a place leads that much further. -/
theorem resolve_join (hne : parts ≠ []) (hparts : IsPlace parts) (start : FilePlace) :
    resolve start (Text.join "/" parts) = start ++ parts := by
  rw [resolve, isAbsolute_join hne hparts, if_neg Bool.false_ne_true, names_join hne hparts,
    walk_of_isPlace hparts]

/-- A path that ends with a slash has nothing behind its last one. -/
theorem getLast?_names_of_endsWith {path : Text} (h : path.endsWith "/" = true) :
    (names path).getLast? = some Text.empty := by
  obtain ⟨before, hbefore⟩ := List.isSuffixOf_iff_suffix.mp h
  have hunits : path.units = before ++ ('/' : CodeUnit) :: [] := hbefore.symm
  rw [names, Text.splitOn, hunits, Text.splitUnits_append_cons]
  simp [Text.splitUnits, Text.empty]

theorem not_endsWith_placeText (hne : place ≠ []) (hplace : IsPlace place) :
    (placeText place).endsWith "/" = false := by
  by_contra h
  have hlast := getLast?_names_of_endsWith (eq_true_of_ne_false h)
  rw [names_placeText hne hplace, List.getLast?_cons] at hlast
  obtain ⟨last, hget⟩ := Option.ne_none_iff_exists'.mp (mt List.getLast?_eq_none_iff.mp hne)
  rw [hget, Option.getD_some] at hlast
  exact (hplace last (List.mem_of_getLast? hget)).ne_empty (Option.some.inj hlast)

theorem pushShort_of_isPart (h : IsPart name) (absolute : Bool) (reversed : List Text) :
    pushShort absolute reversed name = name :: reversed := by
  simp [pushShort, h.ne_empty, h.ne_here, h.ne_above]

theorem foldl_pushShort_of_isPlace (h : IsPlace parts) (absolute : Bool) (reversed : List Text) :
    parts.foldl (pushShort absolute) reversed = parts.reverse ++ reversed := by
  induction parts generalizing reversed with
  | nil => rfl
  | cons name rest ih =>
    obtain ⟨hname, hrest⟩ := List.forall_mem_cons.mp h
    rw [List.foldl_cons, pushShort_of_isPart hname, ih hrest, List.reverse_cons, List.append_assoc]
    rfl

/-- The written form of a place cannot be written shorter. -/
theorem normalize_placeText (hplace : IsPlace place) :
    normalize (placeText place) = placeText place := by
  by_cases hne : place = []
  · subst hne
    decide
  · have hshort : ((names (placeText place)).foldl (pushShort true) []).reverse = place := by
      rw [names_placeText hne hplace, List.foldl_cons]
      change (place.foldl (pushShort true) []).reverse = place
      rw [foldl_pushShort_of_isPlace hplace, List.append_nil, List.reverse_reverse]
    simp only [normalize, isAbsolute_placeText, hshort, not_endsWith_placeText hne hplace]
    simp only [Bool.not_true, Bool.and_false, Bool.false_and, Bool.false_eq_true, if_false, if_true]
    rw [placeText]
    exact congrArg Text.mk (List.append_nil _)

/-! ### The way from one place to another -/

/-- The way down from a place is what is left of the names. -/
theorem relativeNames_append (base parts : FilePlace) :
    relativeNames base (base ++ parts) = parts := by
  induction base with
  | nil => rfl
  | cons name rest ih => rw [List.cons_append, relativeNames, if_pos rfl, ih]

/-- The way to what does not lie below a place begins by going up. -/
theorem head?_relativeNames (h : ¬ base <+: target) :
    (relativeNames base target).head? = some above := by
  induction base, target using relativeNames.induct with
  | case1 rest name others ih =>
    rw [relativeNames, if_pos rfl]
    exact ih fun hrest ↦ h ((List.prefix_cons_inj name).mpr hrest)
  | case2 name rest other others hne =>
    rw [relativeNames, if_neg hne]
    rfl
  | case3 start target hnone =>
    cases start with
    | nil => exact absurd List.nil_prefix h
    | cons name rest =>
      cases target with
      | nil => rfl
      | cons other others => exact absurd rfl (hnone name rest other others rfl)

end FilePath

namespace JsonFiles

open FilePath

variable {base target parts : List Text} {way : Text}

/-- A way whose first name is neither empty nor the name for the place above stays below. -/
theorem staysBelow_of_head? {name : Text} (hname : (FilePath.names way).head? = some name)
    (hempty : name ≠ Text.empty) (habove : name ≠ above) : staysBelow way = true := by
  have hsome : way ≠ Text.empty := by
    rintro rfl
    exact hempty (Option.some.inj hname).symm
  have hup : way ≠ above := by
    rintro rfl
    have hnames : (FilePath.names above).head? = some above := by decide
    exact habove (Option.some.inj (hname.symm.trans hnames))
  have hstart : way.startsWith "../" = false := by
    by_contra h
    obtain ⟨rest, hrest⟩ := List.isPrefixOf_iff_prefix.mp (eq_true_of_ne_false h)
    have hunits : way.units = above.units ++ ('/' : CodeUnit) :: rest := hrest.symm
    rw [FilePath.names, Text.splitOn, hunits, Text.splitUnits_append_cons,
      Text.splitUnits_of_not_mem (by decide)] at hname
    exact habove (Option.some.inj hname).symm
  have habsolute : isAbsolute way = false := by
    by_contra h
    have hhead := head?_names_of_isAbsolute (eq_true_of_ne_false h)
    exact hempty (Option.some.inj (hname.symm.trans hhead))
  have hlength : way.isEmpty = false := by
    by_contra h
    exact hsome (congrArg Text.mk (List.isEmpty_iff.mp (eq_true_of_ne_false h)))
  simp [staysBelow, hlength, hup, hstart, habsolute]

/-- A way that goes up first does not stay below. -/
theorem not_staysBelow_join (h : parts.head? = some above) :
    staysBelow (Text.join "/" parts) = false := by
  obtain ⟨rest, rfl⟩ := List.head?_eq_some_iff.mp h
  cases rest with
  | nil => decide
  | cons second others =>
    have hstart : (Text.join "/" (above :: second :: others)).startsWith "../" = true := by
      rw [Text.join_cons_cons]
      exact List.isPrefixOf_iff_prefix.mpr ⟨_, rfl⟩
    simp [staysBelow, hstart]

/-- The tests on the way to a place let pass what lies below and nothing else. -/
theorem staysBelow_relative_iff (htarget : IsPlace target) :
    staysBelow (relative base target) = true ↔ IsBelow base target := by
  rw [relative]
  by_cases h : base <+: target
  · obtain ⟨parts, rfl⟩ := h
    rw [relativeNames_append]
    cases parts with
    | nil => simpa [IsBelow] using (by decide : staysBelow (Text.join "/" []) = false)
    | cons name rest =>
      have hpart := htarget.of_append_right name (.head _)
      have hway := names_join (List.cons_ne_nil name rest) htarget.of_append_right
      exact iff_of_true
        (staysBelow_of_head? (by rw [hway]; rfl) hpart.ne_empty hpart.ne_above)
        (isBelow_append (List.cons_ne_nil name rest))
  · rw [not_staysBelow_join (head?_relativeNames h)]
    exact iff_of_false Bool.false_ne_true fun hbelow ↦ h hbelow.1

end JsonFiles

end BrowserFlow
