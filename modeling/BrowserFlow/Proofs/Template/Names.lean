import BrowserFlow.Proofs.Text.Numerals
import BrowserFlow.Proofs.Text.Splitting
import BrowserFlow.Template.Basic

/-!
Names as templates. A name is one token (`Token.tokenize_name`), and as an
expression it is the literal it stands for or else the path to its variable
(`Expression.read_name`). Between double braces it is a template that is one
placeholder, so the template stands for the value of that expression, whatever
the value is (`Template.resolve_enclosed`).
-/

set_option autoImplicit false
set_option relaxedAutoImplicit false

namespace BrowserFlow

/-! ### The units of names -/

namespace CodeUnit

/-- The units of names lie between the digits and the braces. -/
theorem bounds_of_continuesName {u : CodeUnit} (h : u.continuesName = true) :
    48 ≤ u.toNat ∧ u.toNat ≤ 122 := by
  have hline : (ofChar '_').toNat = 95 := by decide
  simp only [continuesName, isLetter, isLower, isUpper, isDigit, Bool.or_eq_true,
    Bool.and_eq_true, decide_eq_true_eq, beq_iff_eq, UInt16.le_iff_toNat_le, ← UInt16.toNat_inj,
    hline, UInt16.toNat_ofNat] at h
  omega

theorem continuesName_of_beginsName {u : CodeUnit} (h : u.beginsName = true) :
    u.continuesName = true := by
  rw [continuesName, Bool.or_eq_true]
  exact .inl h

theorem isDigit_of_beginsName {u : CodeUnit} (h : u.beginsName = true) : u.isDigit = false := by
  have hline : (ofChar '_').toNat = 95 := by decide
  simp only [beginsName, isLetter, isLower, isUpper, Bool.or_eq_true, Bool.and_eq_true,
    decide_eq_true_eq, beq_iff_eq, UInt16.le_iff_toNat_le, ← UInt16.toNat_inj, hline,
    UInt16.toNat_ofNat] at h
  rw [← Bool.not_eq_true, isDigit_iff]
  omega

theorem isBlank_of_continuesName {u : CodeUnit} (h : u.continuesName = true) :
    u.isBlank = false := by
  have hbounds := bounds_of_continuesName h
  simp only [isBlank, Bool.or_eq_false_iff, Bool.and_eq_false_imp, beq_eq_false_iff_ne,
    decide_eq_true_eq, decide_eq_false_iff_not, UInt16.le_iff_toNat_le, ne_eq, ← UInt16.toNat_inj,
    UInt16.toNat_ofNat]
  omega

end CodeUnit

theorem Text.units_of_isName {t : Text} (h : t.isName = true) : ∃ first rest,
    t = ⟨first :: rest⟩ ∧ first.beginsName = true ∧ ∀ u ∈ rest, u.continuesName = true := by
  obtain ⟨units⟩ := t
  cases units with
  | nil => simp [isName] at h
  | cons first rest =>
    obtain ⟨hfirst, hrest⟩ := Bool.and_eq_true_iff.mp h
    exact ⟨first, rest, rfl, hfirst, List.all_eq_true.mp hrest⟩

theorem Text.continuesName_of_isName {t : Text} (h : t.isName = true) :
    ∀ u ∈ t.units, u.continuesName = true := by
  obtain ⟨first, rest, rfl, hfirst, hrest⟩ := units_of_isName h
  exact List.forall_mem_cons.mpr ⟨CodeUnit.continuesName_of_beginsName hfirst, hrest⟩

theorem Text.isName_append {t more : Text} (h : t.isName = true)
    (hmore : ∀ u ∈ more.units, u.continuesName = true) : (t ++ more).isName = true := by
  obtain ⟨first, rest, rfl, hfirst, hrest⟩ := units_of_isName h
  have hall : ∀ u ∈ rest ++ more.units, u.continuesName = true :=
    List.forall_mem_append.mpr ⟨hrest, hmore⟩
  exact Bool.and_eq_true_iff.mpr ⟨hfirst, List.all_eq_true.mpr hall⟩

/-! ### Names as expressions -/

/-- A name is read as one token. -/
theorem Token.tokenize_name {t : Text} (h : t.isName = true) :
    tokenize t = .ok [⟨.name t, 0, t.length⟩] := by
  obtain ⟨first, rest, rfl, hfirst, hrest⟩ := Text.units_of_isName h
  have hblank := CodeUnit.isBlank_of_continuesName (CodeUnit.continuesName_of_beginsName hfirst)
  have hmore : rest.takeWhile CodeUnit.continuesName = rest := List.takeWhile_eq_self_iff.mpr hrest
  have hscan : scan false 0 first rest = .ok (.name ⟨first :: rest⟩, rest.length) := by
    rw [scan, if_neg (by simp [CodeUnit.isDigit_of_beginsName hfirst]), if_pos hfirst, hmore]
  have hend : scanAll (isPoint (.name ⟨first :: rest⟩)) (0 + 1 + rest.length)
      (rest.drop rest.length) = .ok [] := by
    rw [List.drop_length, scanAll]
  rw [tokenize, scanAll, if_neg (by simp [hblank]), hscan]
  simp only [hend]
  rfl

namespace Expression

/-- The expression that a name is. -/
def ofName (name : Text) : Expression :=
  match literalOfName? name with
  | some value => .literal value
  | none => .path name []

theorem read_name {t : Text} (h : t.isName = true) : read t = .ok (ofName t) := by
  rw [read, Token.tokenize_name h]
  cases hliteral : literalOfName? t with
  | some value =>
    simp [bind, Except.bind, ofTokens, additive, additiveMore, term, termMore, unary, primary,
      hliteral, ofName]
  | none =>
    simp [bind, Except.bind, ofTokens, additive, additiveMore, term, termMore, unary, primary,
      segments, hliteral, ofName]

/-- A name that stands for no literal has the value of its variable. -/
theorem evaluate_ofName (scope : Scope) (name : Text) {value : Value}
    (h : scope.find? name = some value) :
    (ofName name).evaluate scope = .ok ((literalOfName? name).getD value) := by
  unfold ofName
  cases literalOfName? name with
  | some literal => rfl
  | none => simp [evaluate, h, follow]

end Expression

/-! ### Names as templates -/

namespace Template

/-- A text between double braces. -/
def enclosed (t : Text) : Text := ⟨opening ++ t.units ++ closing⟩

variable {t : Text}

theorem readBody_name (h : t.isName = true) (position : Nat) :
    readBody position t.units = .ok (Expression.ofName t) := by
  have hunits := Text.continuesName_of_isName h
  have hblank : Text.isBlank ⟨t.units⟩ = false := by
    obtain ⟨first, rest, rfl, hfirst, -⟩ := Text.units_of_isName h
    simp [Text.isBlank,
      CodeUnit.isBlank_of_continuesName (CodeUnit.continuesName_of_beginsName hfirst)]
  have hopening : Text.breakOn? opening t.units = none := by
    refine Text.breakOn?_eq_none fun hmem ↦ ?_
    exact absurd (CodeUnit.bounds_of_continuesName (hunits _ hmem)) (by decide)
  rw [readBody, if_neg (by simp [hblank]), hopening]
  exact Expression.read_name h

/-- A name between double braces is one placeholder. -/
theorem read_enclosed (h : t.isName = true) :
    read (enclosed t) = .ok [.placeholder (Expression.ofName t)] := by
  have hclosing : (0x7D : CodeUnit) ∉ t.units := fun hmem ↦
    absurd (CodeUnit.bounds_of_continuesName (Text.continuesName_of_isName h _ hmem)) (by decide)
  have hopen : Text.breakOn? opening (enclosed t).units = some ([], t.units ++ closing) := by
    rw [enclosed, List.append_assoc]
    exact Text.breakOn?_append_self
  have hclose : Text.breakOn? closing (t.units ++ closing) = some (t.units, []) := by
    have happend := @Text.breakOn?_append t.units 0x7D [0x7D] hclosing []
    rwa [List.append_nil] at happend
  have hparts : readParts 0 (enclosed t).units = .ok [.placeholder (Expression.ofName t)] := by
    rw [readParts]
    split
    · next hnone =>
      rw [hopen] at hnone
      cases hnone
    · next before inside hfound =>
      obtain ⟨rfl, rfl⟩ := Prod.mk.inj (Option.some.inj (hopen.symm.trans hfound))
      split
      · next hnone =>
        rw [hclose] at hnone
        cases hnone
      · next body after hend =>
        obtain ⟨rfl, rfl⟩ := Prod.mk.inj (Option.some.inj (hclose.symm.trans hend))
        rw [readBody_name h, readParts]
        rfl
  rw [read, hparts]

theorem hasPlaceholder_enclosed (t : Text) : hasPlaceholder (enclosed t) = true := by
  rw [hasPlaceholder, enclosed, List.append_assoc]
  exact congrArg Option.isSome Text.breakOn?_append_self

/-- A name between double braces stands for the value of the name. -/
theorem resolve_enclosed (h : t.isName = true) (scope : Scope) :
    resolve scope (enclosed t) = (Expression.ofName t).evaluate scope := by
  rw [resolve, if_pos (hasPlaceholder_enclosed t), read_enclosed h]
  rfl

end Template

end BrowserFlow
