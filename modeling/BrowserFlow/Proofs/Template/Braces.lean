import BrowserFlow.Proofs.Expression.Recognition
import BrowserFlow.Proofs.Expression.Scanning
import BrowserFlow.Proofs.Template.Layout

/-!
Expressions as placeholders. An expression that is written without two opening or two
closing braces in a row can stand between double braces, and the template is one
placeholder with the expression (`Template.read_placeholder`). Two braces in a row can
only stand in a quoted text, where they would open or end a placeholder
(`Template.not_read_placeholder_doubledBraces`). A backslash before the second of them
changes nothing about the text, so every expression has a spelling that can stand
between double braces (`Token.scanAll_parted`).
-/

set_option autoImplicit false
set_option relaxedAutoImplicit false

namespace BrowserFlow

/-! ### Braces apart -/

namespace Text

/-- Units with a backslash before each brace that stands behind the same brace. -/
def parted (previous : CodeUnit) : List CodeUnit → List CodeUnit
  | [] => []
  | u :: rest =>
    if u.isBrace && u == previous then '\\' :: u :: parted u rest else u :: parted u rest

variable {previous u : CodeUnit} {units front rest : List CodeUnit}

theorem parted_of_plain (previous : CodeUnit) (rest : List CodeUnit) (h : u.isBrace = false) :
    parted previous (u :: rest) = u :: parted u rest := by
  rw [parted, h, Bool.false_and, if_neg Bool.false_ne_true]

/-- Units without braces stay as they are. -/
theorem parted_append (previous : CodeUnit) (rest : List CodeUnit)
    (h : ∀ u ∈ front, u.isBrace = false) :
    ∃ last, parted previous (front ++ rest) = front ++ parted last rest := by
  induction front generalizing previous with
  | nil => exact ⟨previous, rfl⟩
  | cons u front ih =>
    obtain ⟨hu, hfront⟩ := List.forall_mem_cons.mp h
    obtain ⟨last, hlast⟩ := ih u hfront
    exact ⟨last, by rw [List.cons_append, parted_of_plain _ _ hu, hlast, List.cons_append]⟩

/-- No brace of parted units stands behind the same brace. -/
theorem not_infix_parted (units : List CodeUnit) (hu : u.isBrace = true) :
    ∀ previous, ¬[u, u] <:+: parted previous units ∧
      (u = previous → (parted previous units).head? ≠ some u) := by
  have hslash : u ≠ '\\' := by
    rintro rfl
    exact absurd hu (by decide)
  induction units with
  | nil => simp [parted]
  | cons v rest ih =>
    intro previous
    obtain ⟨hrest, hhead⟩ := ih v
    have hbehind : ¬[u, u] <:+: v :: parted v rest := by
      rw [List.infix_cons_iff]
      rintro (hstarts | hwithin)
      · obtain ⟨rfl, hstarts⟩ := List.cons_prefix_cons.mp hstarts
        obtain ⟨more, hmore⟩ := hstarts
        exact hhead rfl (by rw [← hmore]; rfl)
      · exact hrest hwithin
    rw [parted]
    split
    · refine ⟨?_, fun _ ↦ by simpa using hslash.symm⟩
      rw [List.infix_cons_iff]
      rintro (hstarts | hwithin)
      · exact hslash (List.cons_prefix_cons.mp hstarts).1
      · exact hbehind hwithin
    · next hkept =>
      refine ⟨hbehind, ?_⟩
      rintro rfl hsame
      obtain rfl := Option.some.inj hsame
      exact hkept (by rw [hu, Bool.true_and, beq_self_eq_true])

section While

variable {p : CodeUnit → Bool}

/-- A class without braces and backslashes ends in parted units where it does in the units. -/
theorem takeWhile_parted (hbrace : ∀ u, u.isBrace = true → p u = false) (hslash : p '\\' = false) :
    (parted previous units).takeWhile p = units.takeWhile p := by
  induction units generalizing previous with
  | nil => rfl
  | cons u rest ih =>
    by_cases hu : u.isBrace = true
    · rw [List.takeWhile_cons_of_neg (by simp [hbrace u hu]), parted]
      split
      · rw [List.takeWhile_cons_of_neg (by simp [hslash])]
      · rw [List.takeWhile_cons_of_neg (by simp [hbrace u hu])]
    · rw [parted_of_plain _ _ (eq_false_of_ne_true hu), List.takeWhile_cons, List.takeWhile_cons,
        ih]

theorem dropWhile_parted (previous : CodeUnit) (units : List CodeUnit)
    (hbrace : ∀ u, u.isBrace = true → p u = false) (hslash : p '\\' = false) :
    ∃ last, (parted previous units).dropWhile p = parted last (units.dropWhile p) := by
  induction units generalizing previous with
  | nil => exact ⟨previous, rfl⟩
  | cons u rest ih =>
    by_cases hu : p u = true
    · have hplain : u.isBrace = false := by
        rw [← Bool.not_eq_true]
        exact fun hbraced ↦ absurd hu (by simp [hbrace u hbraced])
      obtain ⟨last, hlast⟩ := @ih u
      refine ⟨last, ?_⟩
      rw [parted_of_plain _ _ hplain, List.dropWhile_cons_of_pos hu, List.dropWhile_cons_of_pos hu,
        hlast]
    · refine ⟨previous, ?_⟩
      rw [List.dropWhile_cons_of_neg hu, parted]
      split
      · exact List.dropWhile_cons_of_neg (by simp [hslash])
      · exact List.dropWhile_cons_of_neg hu

end While

end Text

/-- Parted units between quotes stand for the same text. -/
theorem Escaped.parted {quote : CodeUnit} {content written : List CodeUnit}
    (hquote : quote.IsQuote) (h : Escaped quote content written) (rest : List CodeUnit) :
    ∀ previous, ∃ respelled, Text.parted previous (written ++ quote :: rest) =
      respelled ++ quote :: Text.parted quote rest ∧ Escaped quote content respelled := by
  have hslash : CodeUnit.isBrace '\\' = false := by decide
  induction h with
  | nil => exact fun previous ↦ ⟨[], Text.parted_of_plain _ _ hquote.isBrace, .nil⟩
  | @plain u content written hne hplain _ ih =>
    intro previous
    obtain ⟨respelled, hrespelled, hescaped⟩ := ih u
    rw [List.cons_append, Text.parted]
    split
    · next hbrace =>
      have hsame : u.unescaped = u := by
        rcases CodeUnit.isBrace_iff.mp (Bool.and_eq_true_iff.mp hbrace).1 with rfl | rfl <;> decide
      have hescape := Escaped.escape (u := u) hescaped
      rw [hsame] at hescape
      exact ⟨'\\' :: u :: respelled, by rw [hrespelled]; rfl, hescape⟩
    · exact ⟨u :: respelled, by rw [hrespelled]; rfl, .plain hne hplain hescaped⟩
  | @escape u content written _ ih =>
    intro previous
    obtain ⟨respelled, hrespelled, hescaped⟩ := ih u
    refine ⟨'\\' :: u :: respelled, ?_, .escape hescaped⟩
    rw [List.cons_append, List.cons_append, Text.parted_of_plain _ _ hslash, Text.parted, if_neg]
    · rw [hrespelled]
      rfl
    · rw [Bool.and_eq_true]
      rintro ⟨hbrace, hsame⟩
      rw [beq_iff_eq.mp hsame] at hbrace
      exact absurd hbrace (by decide)

/-! ### Tokens of parted units -/

namespace Token

variable {afterPoint : Bool} {u : CodeUnit} {units rest : List CodeUnit}

theorem numberContent_parted (afterPoint : Bool) (previous : CodeUnit) (units : List CodeUnit) :
    numberContent afterPoint (Text.parted previous units) = numberContent afterPoint units := by
  have hbrace : ∀ u : CodeUnit, u.isBrace = true → u.isDigit = false := by
    intro u hu
    rcases CodeUnit.isBrace_iff.mp hu with rfl | rfl <;> decide
  have hslash : CodeUnit.isDigit '\\' = false := by decide
  obtain ⟨last, hothers⟩ := Text.dropWhile_parted previous units hbrace hslash
  unfold numberContent
  rw [Text.takeWhile_parted hbrace hslash, hothers]
  cases units.dropWhile CodeUnit.isDigit with
  | nil => rfl
  | cons v more =>
    dsimp only
    by_cases hv : v.isBrace = true
    · have hpoint : v ≠ '.' := by
        rintro rfl
        exact absurd hv (by decide)
      have hslashed : CodeUnit.ofChar '\\' ≠ '.' := by decide
      rw [Text.parted]
      by_cases hdoubled : (v.isBrace && v == last) = true
      · simp [hdoubled, hpoint, hslashed]
      · simp [hdoubled, hpoint]
    · rw [Text.parted_of_plain _ _ (eq_false_of_ne_true hv)]
      dsimp only
      rw [Text.takeWhile_parted hbrace hslash]

theorem takeWhile_continuesName_parted (previous : CodeUnit) (units : List CodeUnit) :
    (Text.parted previous units).takeWhile CodeUnit.continuesName =
      units.takeWhile CodeUnit.continuesName := by
  refine Text.takeWhile_parted (fun v hv ↦ ?_) (by decide)
  rcases CodeUnit.isBrace_iff.mp hv with rfl | rfl <;> decide

/-- A token of parted units says what it says without the backslashes. -/
theorem scan_parted {position more : Nat} {lexeme : Lexeme}
    (h : scan afterPoint position u rest = .ok (lexeme, more)) (other : Nat) :
    ∃ width last, scan afterPoint other u (Text.parted u rest) = .ok (lexeme, width) ∧
      (Text.parted u rest).drop width = Text.parted last (rest.drop more) := by
  have hu := isBrace_of_scan h
  rcases cases_of_scan h with hdigit | hname | ⟨content, hquote, hcontent⟩ | hmark
  · obtain ⟨hnumeral, behind, hbehind⟩ :=
      isNumeral_numberContent afterPoint rest hdigit
    have hsame := numberContent_parted afterPoint u (u :: rest)
    rw [Text.parted_of_plain _ _ hu] at hsame
    rw [scan_of_isDigit hdigit] at h ⊢
    rw [hsame]
    generalize numberContent afterPoint (u :: rest) = content at h hnumeral hbehind
    obtain ⟨first, front, rfl, -⟩ := hnumeral.exists_cons
    rw [List.cons_append] at hbehind
    obtain ⟨rfl, rfl⟩ := List.cons.inj hbehind
    cases h
    obtain ⟨last, hlast⟩ := Text.parted_append first behind fun v hv ↦ hnumeral.isBrace (.tail _ hv)
    refine ⟨front.length, last, rfl, ?_⟩
    rw [hlast, List.length_cons, Nat.add_sub_cancel, List.drop_left, List.drop_left]
  · have hplain : ∀ v ∈ rest.takeWhile CodeUnit.continuesName, v.isBrace = false :=
      fun v hv ↦ CodeUnit.isBrace_of_continuesName (List.mem_takeWhile_imp hv)
    have hrest := List.takeWhile_append_dropWhile (p := CodeUnit.continuesName) (l := rest)
    rw [scan_of_beginsName hname] at h ⊢
    rw [takeWhile_continuesName_parted]
    generalize rest.takeWhile CodeUnit.continuesName = front at h hplain hrest
    generalize rest.dropWhile CodeUnit.continuesName = behind at hrest
    subst hrest
    cases h
    obtain ⟨last, hlast⟩ := Text.parted_append u behind hplain
    refine ⟨front.length, last, rfl, ?_⟩
    rw [hlast, List.drop_left, List.drop_left]
  · rw [scan_of_quotedContent? hquote hcontent] at h
    cases h
    obtain ⟨written, behind, rfl, rfl, hescaped⟩ := escaped_of_quotedContent? hcontent
    obtain ⟨respelled, hrespelled, hescaped⟩ := hescaped.parted hquote behind u
    refine ⟨respelled.length + 1, u, scan_of_quotedContent? hquote ?_, ?_⟩
    · rw [hrespelled, quotedContent?_escaped hquote.facts.1 hescaped]
    · simp [hrespelled]
  · rw [scan_of_isMark hmark] at h
    cases h
    exact ⟨0, u, scan_of_isMark hmark, rfl⟩

/-- Parted units have tokens that say the same. -/
theorem scanAll_parted {position : Nat} {tokens : List Token}
    (h : scanAll afterPoint position units = .ok tokens) (other : Nat) (previous : CodeUnit) :
    ∃ others, scanAll afterPoint other (Text.parted previous units) = .ok others ∧
      others.map lexeme = tokens.map lexeme := by
  fun_induction scanAll afterPoint position units generalizing tokens other previous with
  | case1 =>
    cases h
    exact ⟨[], by rw [Text.parted, scanAll], rfl⟩
  | case2 afterPoint position u rest hblank ih =>
    obtain ⟨others, hothers, hlexemes⟩ := ih h (other + 1) u
    refine ⟨others, ?_, hlexemes⟩
    rw [Text.parted_of_plain _ _ (CodeUnit.isBrace_of_isBlank hblank), scanAll, if_pos hblank,
      hothers]
  | case3 => cases h
  | case4 afterPoint position u rest hblank lexeme more hscan ih =>
    obtain ⟨behind, hbehind, hpair⟩ := Except.parts_of_bind h
    cases hpair
    have hu := isBrace_of_scan hscan
    obtain ⟨width, last, hsame, hdrop⟩ := scan_parted hscan other
    obtain ⟨others, hothers, hlexemes⟩ := ih hbehind (other + 1 + width) last
    refine ⟨⟨lexeme, other, width + 1⟩ :: others, ?_, by simp [hlexemes]⟩
    rw [Text.parted_of_plain _ _ hu, scanAll, if_neg hblank, hsame]
    simp only [hdrop, hothers]
    rfl

end Token

/-! ### Placeholders -/

/-- A text that is read as an expression is made up of words, and its tokens are derived from the
grammar. -/
theorem Expression.exists_tokens_of_read {source : Text} {expression : Expression}
    (h : read source = .ok expression) :
    ∃ tokens, Token.scanAll false 0 source.units = .ok tokens ∧ Derives 0 tokens expression := by
  obtain ⟨tokens, htokens, htree⟩ := Except.parts_of_bind h
  exact ⟨tokens, htokens, derives_of_ofTokens htree⟩

/-- A spelling with the braces apart is read as the same expression. -/
theorem Expression.read_parted {source : Text} {expression : Expression}
    (h : read source = .ok expression) (previous : CodeUnit) :
    read ⟨Text.parted previous source.units⟩ = .ok expression := by
  obtain ⟨tokens, htokens, hderives⟩ := exists_tokens_of_read h
  obtain ⟨others, hothers, hlexemes⟩ := Token.scanAll_parted htokens 0 previous
  rw [read, Token.tokenize, hothers]
  exact ofTokens_of_derives (hderives.of_lexemes others hlexemes)

namespace Template

variable {source : Text} {expression : Expression}

/-- A text that is read as an expression does not end with a brace. -/
theorem last_isBrace_of_read (h : Expression.read source = .ok expression) {u : CodeUnit}
    (hu : u ∈ source.units.getLast?) : u.isBrace = false := by
  obtain ⟨tokens, htokens, -⟩ := Expression.exists_tokens_of_read h
  obtain ⟨words, -, hspaced⟩ := Token.exists_spaced htokens
  exact hspaced.last_isBrace hu

/-- A blank text is no expression. -/
theorem isBlank_of_read (h : Expression.read source = .ok expression) :
    source.isBlank = false := by
  rw [← Bool.not_eq_true]
  intro hblank
  obtain ⟨tokens, htokens, hderives⟩ := Expression.exists_tokens_of_read h
  rw [← List.append_nil source.units, Token.scanAll_blanks (List.all_eq_true.mp hblank),
    Token.scanAll] at htokens
  cases htokens
  exact Nat.lt_irrefl 0 hderives.length_pos

/-- The closing braces that are put behind units that do not end with a brace are the first pair,
unless there is one in the units. -/
theorem occursFirst_closing (hlast : ∀ u ∈ source.units.getLast?, u.isBrace = false)
    (hclosing : ¬closing <:+: source.units) : Text.OccursFirst closing source.units [] := by
  intro earlier later hsame
  by_contra hshort
  have hstarts : earlier ++ [0x7D] <+: source.units := by
    have hwhole : earlier ++ [0x7D] <+: source.units ++ closing ++ [] := by
      refine ⟨0x7D :: later, ?_⟩
      rw [← hsame]
      simp [closing]
    refine List.prefix_of_prefix_length_le hwhole (by simp) ?_
    rw [List.length_append, List.length_singleton]
    omega
  obtain ⟨behind, hbehind⟩ := hstarts
  cases behind with
  | nil =>
    -- The pair would take the last unit, which is no brace.
    have hend : (0x7D : CodeUnit) ∈ source.units.getLast? := by
      rw [← hbehind, List.append_nil, List.getLast?_concat]
      rfl
    exact absurd (hlast _ hend) (by decide)
  | cons v more =>
    rw [← hbehind] at hsame
    simp only [closing, List.append_assoc, List.append_nil, List.cons_append, List.nil_append,
      List.append_cancel_left_eq, List.cons.injEq, true_and] at hsame
    obtain ⟨rfl, -⟩ := hsame
    exact hclosing ⟨earlier, more, by rw [← hbehind]; simp [closing]⟩

/-- Double braces around units without a closing pair that comes first are one placeholder. -/
theorem readParts_enclosed {body : List CodeUnit} (h : Text.OccursFirst closing body [])
    (position : Nat) : readParts position (opening ++ body ++ closing) = (do
      let expression ← readBody position body
      .ok [.placeholder expression]) := by
  have hopen : Text.breakOn? opening (opening ++ body ++ closing) = some ([], body ++ closing) :=
    Text.breakOn?_eq_some_iff.mpr ⟨by simp only [List.nil_append, List.append_assoc],
      fun _ _ _ ↦ Nat.zero_le _⟩
  have hclose : Text.breakOn? closing (body ++ closing) = some (body, []) :=
    Text.breakOn?_eq_some_iff.mpr ⟨(List.append_nil _).symm, h⟩
  rw [readParts]
  split
  · next hnone =>
    rw [hopen] at hnone
    cases hnone
  · next before inside hfound =>
    obtain ⟨rfl, rfl⟩ := Prod.mk.inj (Option.some.inj (hopen.symm.trans hfound))
    split
    · next hnone =>
      rw [hclose] at hnone
      cases hnone
    · next found after hend =>
      obtain ⟨rfl, rfl⟩ := Prod.mk.inj (Option.some.inj (hclose.symm.trans hend))
      rw [readParts]
      rfl

/-- An expression without two opening or two closing braces in a row can be a placeholder. -/
theorem read_enclosed_of_plain (h : Expression.read source = .ok expression)
    (hopening : ¬opening <:+: source.units) (hclosing : ¬closing <:+: source.units) :
    read (enclosed source) = .ok [.placeholder expression] := by
  have hbody := (readBody_eq_ok_iff 0).mpr ⟨hopening, isBlank_of_read h, h⟩
  have hfirst := occursFirst_closing (fun _ ↦ last_isBrace_of_read h) hclosing
  rw [read_eq_ok_iff, enclosed, readParts_enclosed hfirst, hbody]
  rfl

/-- An expression with two opening braces in a row is taken for a placeholder within another. -/
theorem read_enclosed_of_opening (h : Expression.read source = .ok expression)
    (hopening : opening <:+: source.units) (hclosing : ¬closing <:+: source.units) :
    read (enclosed source) = .error (.template (enclosed source) (.nestedPlaceholder 0)) := by
  have hfound : (Text.breakOn? opening source.units).isSome = true := by
    rw [Option.isSome_iff_ne_none]
    exact fun hnone ↦ Text.breakOn?_eq_none_iff.mp hnone hopening
  have hbody : readBody 0 source.units = .error (.nestedPlaceholder 0) := by
    rw [readBody, if_neg (by rw [isBlank_of_read h]; decide), if_pos hfound]
  have hfirst := occursFirst_closing (fun _ ↦ last_isBrace_of_read h) hclosing
  have hparts : readParts 0 (enclosed source).units = .error (.nestedPlaceholder 0) := by
    rw [enclosed, readParts_enclosed hfirst, hbody]
    rfl
  rw [read, hparts]

/-- An expression in which no two opening and no two closing braces stand in a row is, between
double braces, a template that is one placeholder with the expression. Two opening braces in a row
are refused as a placeholder within another. With a backslash before the second of two such
braces, which only quoted texts have, every expression is read as the same expression and can
stand between double braces. -/
theorem read_placeholder (h : Expression.read source = .ok expression) :
    (¬opening <:+: source.units → ¬closing <:+: source.units →
      read (enclosed source) = .ok [.placeholder expression]) ∧
    (opening <:+: source.units → ¬closing <:+: source.units →
      read (enclosed source) = .error (.template (enclosed source) (.nestedPlaceholder 0))) ∧
    Expression.read ⟨Text.parted 0 source.units⟩ = .ok expression ∧
    read (enclosed ⟨Text.parted 0 source.units⟩) = .ok [.placeholder expression] := by
  have hparted := Expression.read_parted h 0
  have hapart : ∀ u : CodeUnit, u.isBrace = true → ¬[u, u] <:+: Text.parted 0 source.units :=
    fun u hu ↦ (Text.not_infix_parted source.units hu 0).1
  exact ⟨read_enclosed_of_plain h, read_enclosed_of_opening h, hparted,
    read_enclosed_of_plain hparted (hapart 0x7B rfl) (hapart 0x7D rfl)⟩

/-- A key in braces, and a text of two braces of which the second stands behind a backslash. -/
def bracedKey : Text := "rows[\"\x7ba\x7d\"] + \"\x7d\\\x7d\""

theorem read_placeholder_bracedKey :
    (∃ expression, Expression.read bracedKey = .ok expression ∧
      ¬opening <:+: bracedKey.units ∧ ¬closing <:+: bracedKey.units ∧
      read (enclosed bracedKey) = .ok [.placeholder expression]) ∧
    (interpolate (.ofEntries [("rows", .mapping [("\x7ba\x7d", .text "first ")])])
      (enclosed bracedKey)).toOption = some "first \x7d\x7d" := by
  have hexpression : (Expression.read bracedKey).isOk = true := by decide +kernel
  have hopening : ¬opening <:+: bracedKey.units := by decide +kernel
  have hclosing : ¬closing <:+: bracedKey.units := by decide +kernel
  obtain ⟨expression, hread⟩ := Except.eq_ok_of_isOk hexpression
  exact ⟨⟨expression, hread, hopening, hclosing, (read_placeholder hread).1 hopening hclosing⟩,
    by decide +kernel⟩

/-- A text of two opening braces and a text of two closing ones are expressions, but neither can
stand between double braces: what is in a quoted text opens and ends placeholders too. -/
theorem not_read_placeholder_doubledBraces :
    (Expression.read "\"\x7b\x7b\"").isOk = true ∧
    (read (enclosed "\"\x7b\x7b\"")).isOk = false ∧
    (Expression.read "\"\x7d\x7d\"").isOk = true ∧
    (read (enclosed "\"\x7d\x7d\"")).isOk = false ∧
    ¬∀ source expression, Expression.read source = .ok expression →
      read (enclosed source) = .ok [.placeholder expression] := by
  have hopening : (Expression.read "\"\x7b\x7b\"").isOk = true := by decide +kernel
  have hrefused : (read (enclosed "\"\x7b\x7b\"")).isOk = false := by decide +kernel
  refine ⟨hopening, hrefused, by decide +kernel, by decide +kernel, fun hall ↦ ?_⟩
  obtain ⟨expression, hread⟩ := Except.eq_ok_of_isOk hopening
  rw [hall _ expression hread] at hrefused
  cases hrefused

end Template

end BrowserFlow
