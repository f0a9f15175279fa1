import BrowserFlow.Proofs.Json.Scalars

/-!
Values written on one line. What is escaped, a number and all that is put together
of them holds no control character and no surrogate without its partner, so
whatever the value is, it is written on one line (`Json.oneLine_write`), and the
line is written to a disk as it is (`Json.mended_write`).
-/

set_option autoImplicit false
set_option relaxedAutoImplicit false

namespace BrowserFlow.Json

variable {units others : List CodeUnit} {u : CodeUnit}

/-- Units of one line: they are well-formed, and no control character is among them. -/
structure OneLine (units : List CodeUnit) : Prop where
  wellFormed : Text.WellFormed units
  printed : ∀ u ∈ units, 0x20 ≤ u.toNat

/-- A unit that needs no escape and no partner. -/
def isPrinted (u : CodeUnit) : Bool := !u.isSurrogate && 0x20 ≤ u.toNat

theorem OneLine.append (hunits : OneLine units) (hothers : OneLine others) :
    OneLine (units ++ others) := by
  refine ⟨hunits.wellFormed.append hothers.wellFormed, fun u hu ↦ ?_⟩
  exact (List.mem_append.mp hu).elim (hunits.printed u) (hothers.printed u)

theorem OneLine.of_forall (h : ∀ u ∈ units, isPrinted u = true) : OneLine units := by
  have hboth : ∀ u ∈ units, u.isSurrogate = false ∧ 0x20 ≤ u.toNat := fun u hu ↦ by
    simpa [isPrinted] using h u hu
  exact ⟨.of_forall fun u hu ↦ (hboth u hu).1, fun u hu ↦ (hboth u hu).2⟩

theorem OneLine.of_all (h : units.all isPrinted = true) : OneLine units :=
  .of_forall (List.all_eq_true.mp h)

theorem OneLine.no_break (h : OneLine units) : ('\n' : CodeUnit) ∉ units := fun hbreak ↦
  absurd (h.printed _ hbreak) (by decide)

/-! ### Quoted texts -/

theorem isPrinted_hexDigit {n : Nat} (h : n < 16) : isPrinted (hexDigit n) = true := by
  have hdigit : ∀ m : Fin 16, isPrinted (hexDigit m.val) = true := by decide
  exact hdigit ⟨n, h⟩

theorem oneLine_escapeNumber (u : CodeUnit) : OneLine (escapeNumber u) := by
  have hdigit : ∀ n : Nat, isPrinted (hexDigit (n % 16)) = true :=
    fun n ↦ isPrinted_hexDigit (Nat.mod_lt _ (by decide))
  have hmarks : isPrinted '\\' = true ∧ isPrinted 'u' = true := by decide
  refine .of_all ?_
  simp [escapeNumber, hdigit, hmarks]

theorem oneLine_escapeUnit (h : u.isSurrogate = false) : OneLine (escapeUnit u) := by
  unfold escapeUnit
  repeat' split
  all_goals first
    | exact .of_all (by decide)
    | exact oneLine_escapeNumber u
    | skip
  next hcontrol =>
    refine .of_all ?_
    have hprinted : 0x20 ≤ u.toNat := by
      rw [UInt16.lt_iff_toNat_lt] at hcontrol
      simpa using hcontrol
    simp [isPrinted, h, hprinted]

theorem oneLine_escape (units : List CodeUnit) : OneLine (escape units) := by
  refine escape_induction (motive := fun _ escaped ↦ OneLine escaped)
    (.of_all rfl) ?_ ?_ ?_ units
  · exact fun u _ _ ih ↦ (oneLine_escapeNumber u).append ih
  · exact fun u _ hplain ih ↦ (oneLine_escapeUnit hplain).append ih
  · intro u v others hu hv ih
    have hhigh := CodeUnit.isHighSurrogate_iff.mp hu
    have hlow := CodeUnit.isLowSurrogate_iff.mp hv
    refine ⟨.pair hu hv ih.wellFormed, ?_⟩
    simp only [List.forall_mem_cons]
    exact ⟨by omega, by omega, ih.printed⟩

theorem oneLine_quote (t : Text) : OneLine (quote t).units := by
  have hmark : OneLine (("\"" : String) : Text).units := .of_all (by decide)
  exact (hmark.append (oneLine_escape t.units)).append hmark

/-! ### Numbers -/

theorem isPrinted_of_isDigit (h : u.isDigit = true) : isPrinted u = true := by
  have hbounds := (CodeUnit.isDigit_iff u).mp h
  have hplain : u.isSurrogate = false := by
    rw [Bool.eq_false_iff, ne_eq, CodeUnit.isSurrogate_iff]
    omega
  simp only [isPrinted, hplain, Bool.not_false, Bool.true_and, decide_eq_true_eq]
  omega

theorem oneLine_digits (h : ∀ u ∈ units, u.isDigit = true) : OneLine units :=
  .of_forall fun u hu ↦ isPrinted_of_isDigit (h u hu)

theorem oneLine_parts {parts : NumberParts} (h : parts.IsProper) : OneLine parts.units := by
  have hfraction : OneLine (NumberParts.fractionUnits parts.fraction) := by
    unfold NumberParts.fractionUnits
    split
    · exact .of_all rfl
    · have hpoint : OneLine ['.'] := .of_all (by decide)
      exact hpoint.append (oneLine_digits h.fraction)
  have hpower : OneLine (NumberParts.powerUnits parts.power) := by
    cases hparts : parts.power with
    | none => exact .of_all rfl
    | some power =>
      have hdigits := oneLine_digits (h.power power.1 power.2 hparts).2
      have hsign : ∀ negative : Bool, OneLine [CodeUnit.ofChar 'e',
          if negative then CodeUnit.ofChar '-' else CodeUnit.ofChar '+'] := by
        intro negative
        cases negative <;> exact .of_all (by decide)
      exact (hsign power.1).append hdigits
  exact ((oneLine_digits h.whole.2).append hfraction).append hpower

theorem oneLine_writeNumber (x : Number) : OneLine (writeNumber x).units := by
  by_cases hfinite : x.isFinite = true
  · obtain ⟨negative, size, rfl⟩ := Number.exists_of_isFinite hfinite
    rw [writeNumber, if_pos hfinite, Number.toText]
    split
    · exact .of_all (by decide)
    · next hzero =>
      obtain ⟨parts, hproper, hlayOut, -⟩ := Number.exists_parts_shortest negative hzero
      rw [Text.units_append, hlayOut]
      refine OneLine.append ?_ (oneLine_parts hproper)
      split <;> exact .of_all (by decide)
  · rw [writeNumber, if_neg hfinite]
    exact .of_all (by decide)

/-! ### Values -/

theorem oneLine_join {parts : List Text} (h : ∀ part ∈ parts, OneLine part.units) :
    OneLine (Text.join "," parts).units := by
  have hmark : OneLine ((("," : String) : Text)).units := .of_all (by decide)
  induction parts with
  | nil => exact .of_all rfl
  | cons first rest ih =>
    obtain ⟨hfirst, hrest⟩ := List.forall_mem_cons.mp h
    cases rest with
    | nil => exact hfirst
    | cons second others => exact (hfirst.append hmark).append (ih hrest)

mutual

/-- Whatever a value is, it is written on one line. -/
theorem oneLine_write (value : Value) : OneLine (write value).units := by
  cases value with
  | null => exact .of_all (by decide)
  | bool b => cases b <;> exact .of_all (by decide)
  | number x => exact oneLine_writeNumber x
  | text t => exact oneLine_quote t
  | sequence items =>
    have hopening : OneLine (("[" : String) : Text).units := .of_all (by decide)
    have hclosing : OneLine (("]" : String) : Text).units := .of_all (by decide)
    exact (hopening.append (oneLine_join (oneLine_writeItems items))).append hclosing
  | mapping entries =>
    have hopening : OneLine (("\x7b" : String) : Text).units := .of_all (by decide)
    have hclosing : OneLine (("\x7d" : String) : Text).units := .of_all (by decide)
    exact (hopening.append (oneLine_join (oneLine_writeEntries entries))).append hclosing
  termination_by structural value

theorem oneLine_writeItems (items : List Value) :
    ∀ part ∈ writeItems items, OneLine part.units := by
  cases items with
  | nil => exact List.forall_mem_nil _
  | cons item rest =>
    exact List.forall_mem_cons.mpr ⟨oneLine_write item, oneLine_writeItems rest⟩
  termination_by structural items

theorem oneLine_writeEntries (entries : List (Text × Value)) :
    ∀ part ∈ writeEntries entries, OneLine part.units := by
  cases entries with
  | nil => exact List.forall_mem_nil _
  | cons entry rest =>
    obtain ⟨key, value⟩ := entry
    have hmark : OneLine ((":" : String) : Text).units := .of_all (by decide)
    exact List.forall_mem_cons.mpr ⟨((oneLine_quote key).append hmark).append
      (oneLine_write value), oneLine_writeEntries rest⟩
  termination_by structural entries

end

/-- A line is written to a disk as it is, with the end of the line. -/
theorem mended_write (value : Value) : (write value ++ "\n").mended = write value ++ "\n" := by
  have hend : Text.WellFormed (("\n" : String) : Text).units := .of_all (by decide)
  have hline := (oneLine_write value).wellFormed.append hend
  exact congrArg Text.mk ((Text.units_mended _).trans hline.mend_eq)

end BrowserFlow.Json
