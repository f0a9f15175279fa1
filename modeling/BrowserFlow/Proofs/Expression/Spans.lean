import BrowserFlow.Proofs.Expression.Scanning

/-!
The tokens of a text account for all of its units. Their spans follow each other
inside of the text, the units in a span spell what the token says, and all units
outside of the spans are blank (`Token.Accounts`). The reading of a token looks at
most two units ahead, and blank units that are put in behind it change nothing of
what it sees there (`Token.scan_loosened`); so more white space around the tokens
moves them and does nothing else (`Token.scanAll_loosened`). Where a text has no
tokens the flaw is at one of its units (`Token.StopsAt`).

The tokens are those that a scan finds which goes through the text turn by turn.
Every turn goes forward (`Scan.turn_forward`), so the scan ends
(`Scan.advance_eq`). All of it is put together in `Token.tokenize_accounts`.
-/

set_option autoImplicit false
set_option relaxedAutoImplicit false

namespace BrowserFlow

/-! ### Spans -/

namespace Token

/-- A position at which one of the units of a token is. -/
def Covers (token : Token) (position : Nat) : Prop :=
  token.position ≤ position ∧ position < token.position + token.width

/-- Tokens that account for units of which the first is at a position: each has units there that
spell it, they follow each other, and what none of them covers is blank. -/
structure Accounts (start : Nat) (units : List CodeUnit) (tokens : List Token) : Prop where
  inside : ∀ token ∈ tokens, start ≤ token.position ∧ 0 < token.width ∧
    token.position + token.width ≤ start + units.length
  apart : tokens.Pairwise fun earlier later ↦ earlier.position + earlier.width ≤ later.position
  spelled : ∀ token ∈ tokens,
    token.lexeme.Spelled ((units.drop (token.position - start)).take token.width)
  blank : ∀ index u, units[index]? = some u →
    (∀ token ∈ tokens, ¬token.Covers (start + index)) → u.isBlank = true

section Accounts

variable {start : Nat} {u : CodeUnit} {units front behind : List CodeUnit}
  {tokens earlier later : List Token}

theorem accounts_nil (start : Nat) : Accounts start [] [] :=
  ⟨by simp, .nil, by simp, by simp⟩

theorem accounts_blank (h : u.isBlank = true) : Accounts start [u] [] := by
  refine ⟨by simp, .nil, by simp, fun index v hv _ ↦ ?_⟩
  obtain rfl := List.mem_singleton.mp (List.mem_of_getElem? hv)
  exact h

theorem accounts_token {lexeme : Lexeme} (h : lexeme.Spelled (u :: front)) :
    Accounts start (u :: front) [⟨lexeme, start, front.length + 1⟩] := by
  refine ⟨by simp, List.pairwise_singleton _ _, fun token htoken ↦ ?_, fun index v hv hcovers ↦ ?_⟩
  · obtain rfl := List.mem_singleton.mp htoken
    rwa [Nat.sub_self, List.drop_zero, ← List.length_cons, List.take_length]
  · have hindex : index < front.length + 1 := (List.getElem?_eq_some_iff.mp hv).1
    refine absurd ?_ (hcovers _ List.mem_cons_self)
    constructor <;> dsimp only <;> omega

/-- What accounts for units and what accounts for those behind them accounts for both. -/
theorem Accounts.append (hfront : Accounts start front earlier)
    (hbehind : Accounts (start + front.length) behind later) :
    Accounts start (front ++ behind) (earlier ++ later) := by
  refine ⟨fun token htoken ↦ ?_, List.pairwise_append.mpr ⟨hfront.apart, hbehind.apart, ?_⟩,
    fun token htoken ↦ ?_, fun index u hu hcovers ↦ ?_⟩
  · rw [List.length_append]
    rcases List.mem_append.mp htoken with htoken | htoken
    · have := hfront.inside token htoken
      omega
    · have := hbehind.inside token htoken
      omega
  · intro first hfirst second hsecond
    have := hfront.inside first hfirst
    have := hbehind.inside second hsecond
    omega
  · rcases List.mem_append.mp htoken with htoken | htoken
    · have hinside := hfront.inside token htoken
      have hspelled := hfront.spelled token htoken
      rwa [List.drop_append_of_le_length (by omega),
        List.take_append_of_le_length (by rw [List.length_drop]; omega)]
    · have hinside := hbehind.inside token htoken
      have hspelled := hbehind.spelled token htoken
      have hposition : token.position - start =
          front.length + (token.position - (start + front.length)) := by omega
      rwa [hposition, List.drop_length_add_append]
  · by_cases hindex : index < front.length
    · rw [List.getElem?_append_left hindex] at hu
      exact hfront.blank index u hu fun token htoken ↦
        hcovers token (List.mem_append_left later htoken)
    · rw [List.getElem?_append_right (by omega)] at hu
      refine hbehind.blank _ u hu fun token htoken ↦ ?_
      have hposition : start + front.length + (index - front.length) = start + index := by omega
      rw [hposition]
      exact hcovers token (List.mem_append_right earlier htoken)

/-- The tokens of some units account for them. -/
theorem scanAll_accounts {afterPoint : Bool}
    (h : scanAll afterPoint start units = .ok tokens) : Accounts start units tokens := by
  fun_induction scanAll afterPoint start units generalizing tokens with
  | case1 afterPoint start =>
    cases h
    exact accounts_nil start
  | case2 afterPoint start u rest hblank ih => exact (accounts_blank hblank).append (ih h)
  | case3 => cases h
  | case4 afterPoint start u rest hblank lexeme more hscan ih =>
    obtain ⟨others, hothers, hpair⟩ := Except.parts_of_bind h
    cases hpair
    obtain ⟨front, behind, rfl, rfl, hspelled⟩ := spelled_of_scan hscan
    have hbehind := ih hothers
    rw [List.drop_left, Nat.add_assoc, Nat.add_comm 1] at hbehind
    exact (accounts_token hspelled).append hbehind

end Accounts

end Token

/-! ### More white space -/

/-- Units with others put in, before each position those that are named for it. -/
def CodeUnit.loosened (gaps : Nat → List CodeUnit) (position : Nat) :
    List CodeUnit → List CodeUnit
  | [] => gaps position
  | u :: rest => gaps position ++ u :: loosened gaps (position + 1) rest

/-- How many units are put in before the positions up to one. -/
def CodeUnit.shift (gaps : Nat → List CodeUnit) : Nat → Nat
  | 0 => 0
  | position + 1 => shift gaps position + (gaps position).length

/-- A text with other units put in. -/
def Text.loosened (gaps : Nat → List CodeUnit) (source : Text) : Text :=
  ⟨CodeUnit.loosened gaps 0 source.units⟩

/-- A token behind the units that were put in before it. -/
def Token.moved (gaps : Nat → List CodeUnit) (token : Token) : Token :=
  { token with position := token.position + CodeUnit.shift gaps (token.position + 1) }

/-- White space to put in, none of it into a token. -/
structure Token.Loosens (tokens : List Token) (gaps : Nat → List CodeUnit) : Prop where
  blank : ∀ position, ∀ u ∈ gaps position, u.isBlank = true
  outside : ∀ token ∈ tokens, ∀ position, token.position < position →
    position < token.position + token.width → gaps position = []

namespace CodeUnit

variable {gaps : Nat → List CodeUnit} {p : CodeUnit → Bool} {position : Nat}
  {front behind : List CodeUnit}

theorem loosened_append
    (h : ∀ index, position ≤ index → index < position + front.length → gaps index = []) :
    loosened gaps position (front ++ behind) =
      front ++ loosened gaps (position + front.length) behind := by
  induction front generalizing position with
  | nil => rfl
  | cons u front ih =>
    rw [List.length_cons] at h
    rw [List.cons_append, loosened, h position le_rfl (by omega), List.nil_append,
      ih fun index hfrom hto ↦ h index (by omega) (by omega), List.cons_append, List.length_cons,
      Nat.add_assoc, Nat.add_comm 1]

theorem shift_add {count : Nat}
    (h : ∀ index, position ≤ index → index < position + count → gaps index = []) :
    shift gaps (position + count) = shift gaps position := by
  induction count with
  | zero => rfl
  | succ count ih =>
    rw [← Nat.add_assoc, shift, h (position + count) (by omega) (by omega), List.length_nil,
      Nat.add_zero, ih fun index hfrom hto ↦ h index hfrom (by omega)]

/-- The first unit that is not white space is one that was there before. -/
theorem eq_cons_of_loosened {u : CodeUnit} {more : List CodeUnit}
    (hblank : ∀ index, ∀ u ∈ gaps index, u.isBlank = true) (hu : u.isBlank = false)
    (h : loosened gaps position behind = u :: more) :
    ∃ rest, behind = u :: rest ∧ more = loosened gaps (position + 1) rest := by
  cases hgap : gaps position with
  | nil =>
    cases behind with
    | nil =>
      rw [loosened, hgap] at h
      cases h
    | cons v rest =>
      rw [loosened, hgap] at h
      obtain ⟨rfl, rfl⟩ := List.cons.inj h
      exact ⟨rest, rfl, rfl⟩
  | cons v others =>
    have hv : v.isBlank = true := hblank position v (hgap ▸ List.mem_cons_self)
    have huv : v = u := by
      cases behind <;> rw [loosened, hgap] at h <;> exact (List.cons.inj h).1
    rw [huv, hu] at hv
    cases hv

/-- White space does not bring anything else to the front. -/
theorem head_loosened (hblank : ∀ index, ∀ u ∈ gaps index, u.isBlank = true)
    (hp : ∀ u, u.isBlank = true → p u = false) (h : ∀ u ∈ behind.head?, p u = false)
    (position : Nat) :
    ∀ u ∈ (loosened gaps position behind).head?, p u = false := by
  intro u hu
  cases hisBlank : u.isBlank with
  | true => exact hp u hisBlank
  | false =>
    obtain ⟨more, hmore⟩ := List.head?_eq_some_iff.mp hu
    obtain ⟨rest, rfl, -⟩ := eq_cons_of_loosened hblank hisBlank hmore
    exact h u rfl

end CodeUnit

namespace Token

variable {gaps : Nat → List CodeUnit} {u : CodeUnit} {afterPoint : Bool} {lexeme : Lexeme}
  {position start : Nat} {rest front behind content units : List CodeUnit} {tokens : List Token}

/-- Units are taken up to the first that does not go on. -/
theorem takeWhile_append_iff {p : CodeUnit → Bool} :
    (front ++ rest).takeWhile p = front ↔
      (∀ u ∈ front, p u = true) ∧ ∀ u ∈ rest.head?, p u = false := by
  refine ⟨fun h ↦ ?_, fun h ↦ takeWhile_append_of_head h.1 h.2⟩
  have hfront : ∀ u ∈ front, p u = true := fun u hu ↦ List.mem_takeWhile_imp (h ▸ hu)
  refine ⟨hfront, fun u hu ↦ ?_⟩
  rw [List.takeWhile_append_of_pos hfront, List.append_right_eq_self] at h
  obtain ⟨others, rfl⟩ := List.head?_eq_some_iff.mp hu
  by_contra hgoes
  rw [List.takeWhile_cons_of_pos (by simpa using hgoes)] at h
  cases h

/-- A number goes on behind its first digits as if it began there. -/
theorem numberContent_append (h : ∀ u ∈ front, u.isDigit = true) :
    numberContent afterPoint (front ++ rest) = front ++ numberContent afterPoint rest := by
  unfold numberContent
  rw [List.takeWhile_append_of_pos h, List.dropWhile_append_of_pos h]
  dsimp only
  split
  · split
    · rw [List.append_assoc]
    · rfl
  · rfl

/-- At what is not a digit only a fraction can stand, with a point before it. -/
theorem numberContent_cons (h : u.isDigit = false) : numberContent afterPoint (u :: rest) =
    if afterPoint = false ∧ u = CodeUnit.ofChar '.' ∧ rest.takeWhile CodeUnit.isDigit ≠ [] then
      u :: rest.takeWhile CodeUnit.isDigit else [] := by
  rw [numberContent, List.takeWhile_cons_of_neg (by simp [h]),
    List.dropWhile_cons_of_neg (by simp [h])]
  simp only [Bool.and_eq_true, Bool.not_eq_true', decide_eq_true_eq, List.isEmpty_eq_false_iff,
    and_assoc, List.nil_append]

/-- No number stands where there is neither a digit nor, if one may be there, a fraction. -/
theorem numberContent_eq_nil_iff : numberContent afterPoint rest = [] ↔
    (∀ u ∈ rest.head?, u.isDigit = false) ∧
      (afterPoint = false → ∀ more, rest = CodeUnit.ofChar '.' :: more →
        ∀ digit ∈ more.head?, digit.isDigit = false) := by
  cases rest with
  | nil => simp [numberContent]
  | cons u more =>
    have hmore : more.takeWhile CodeUnit.isDigit = [] ↔
        ∀ digit ∈ more.head?, digit.isDigit = false := by
      rw [← List.nil_append more, takeWhile_append_iff]
      simp
    cases hu : u.isDigit with
    | true =>
      have hfirst : numberContent afterPoint ([u] ++ more) = [u] ++ numberContent afterPoint more :=
        numberContent_append (by simpa using hu)
      rw [← List.singleton_append, hfirst]
      simp [hu]
    | false =>
      rw [numberContent_cons hu]
      constructor
      · intro h
        refine ⟨fun v hv ↦ Option.some.inj hv ▸ hu, fun hafter others hpoint ↦ ?_⟩
        obtain ⟨rfl, rfl⟩ := List.cons.inj hpoint
        rw [← hmore]
        by_contra hsome
        rw [if_pos ⟨hafter, rfl, hsome⟩] at h
        cases h
      · rintro ⟨-, h⟩
        refine if_neg ?_
        rintro ⟨hafter, rfl, hsome⟩
        exact hsome (hmore.mpr (h hafter more rfl))

/-- White space behind a number does not change what is read for it. -/
theorem numberContent_loosened (hblank : ∀ index, ∀ u ∈ gaps index, u.isBlank = true)
    (hnumeral : IsNumeral content)
    (h : numberContent afterPoint (content ++ behind) = content) (position : Nat) :
    numberContent afterPoint (content ++ CodeUnit.loosened gaps position behind) = content := by
  have hblank_digit : ∀ u : CodeUnit, u.isBlank = true → u.isDigit = false := fun _ hu ↦
    CodeUnit.isDigit_of_continuesName (CodeUnit.continuesName_of_isBlank hu)
  rcases hnumeral with hdigits | ⟨whole, fraction, rfl, hwhole, hfraction⟩
  · rw [numberContent_append hdigits.2, List.append_right_eq_self,
      numberContent_eq_nil_iff] at h ⊢
    refine ⟨CodeUnit.head_loosened hblank hblank_digit h.1 _, fun hafter more hpoint ↦ ?_⟩
    -- A point that is in front was there before, and behind it is what was there or white space.
    obtain ⟨rest, rfl, rfl⟩ := CodeUnit.eq_cons_of_loosened hblank (by decide) hpoint
    exact CodeUnit.head_loosened hblank hblank_digit (h.2 hafter rest rfl) _
  · have hpoint : (CodeUnit.ofChar '.').isDigit = false := by decide
    rw [List.append_assoc, List.cons_append, numberContent_append hwhole.2,
      List.append_right_inj, numberContent_cons hpoint] at h ⊢
    split at h
    · next hgoes =>
      obtain ⟨hall, hhead⟩ := takeWhile_append_iff.mp (List.cons.inj h).2
      have hsame := takeWhile_append_iff.mpr
        ⟨hall, CodeUnit.head_loosened hblank hblank_digit hhead position⟩
      rw [hsame, if_pos ⟨hgoes.1, rfl, hfraction.1⟩]
    · cases h

theorem eq_of_prefix (h : content <+: front ++ behind) (hlength : content.length = front.length) :
    content = front := by
  obtain ⟨others, hothers⟩ := h
  exact List.append_inj_left hothers hlength

/-- The reading of a token sees nothing else when white space is put in behind it. -/
theorem scan_loosened (hblank : ∀ index, ∀ u ∈ gaps index, u.isBlank = true)
    (h : scan afterPoint start u (front ++ behind) = .ok (lexeme, front.length)) (other : Nat) :
    scan afterPoint other u (front ++ CodeUnit.loosened gaps position behind) =
      .ok (lexeme, front.length) := by
  rcases cases_of_scan h with hdigit | hname | ⟨content, hquote, hcontent⟩ | hmark
  · obtain ⟨hnumeral, hprefix⟩ := isNumeral_numberContent afterPoint (front ++ behind) hdigit
    rw [scan_of_isDigit hdigit] at h
    obtain ⟨rfl, hwidth⟩ := Prod.mk.inj (Except.ok.inj h)
    have hcontent : numberContent afterPoint (u :: (front ++ behind)) = u :: front := by
      refine eq_of_prefix (by rwa [List.cons_append]) ?_
      obtain ⟨first, others, hunits, -⟩ := hnumeral.exists_cons
      rw [hunits, List.length_cons] at hwidth ⊢
      rw [List.length_cons]
      omega
    rw [hcontent] at hnumeral
    have hsame := numberContent_loosened hblank hnumeral hcontent position
    rw [List.cons_append] at hsame
    rw [scan_of_isDigit hdigit, hsame, hcontent]
    rfl
  · rw [scan_of_beginsName hname] at h
    obtain ⟨rfl, hwidth⟩ := Prod.mk.inj (Except.ok.inj h)
    have hfront : (front ++ behind).takeWhile CodeUnit.continuesName = front :=
      eq_of_prefix (List.takeWhile_prefix _) hwidth
    obtain ⟨hall, hhead⟩ := takeWhile_append_iff.mp hfront
    have hsame := takeWhile_append_iff.mpr ⟨hall, CodeUnit.head_loosened hblank
      (fun _ ↦ CodeUnit.continuesName_of_isBlank) hhead position⟩
    rw [scan_of_beginsName hname, hsame, hfront]
  · obtain ⟨written, others, hunits, hwidth, hescaped⟩ := escaped_of_quotedContent? hcontent
    rw [scan_of_quotedContent? hquote hcontent] at h
    obtain ⟨rfl, -⟩ := Prod.mk.inj (Except.ok.inj h)
    -- The token ends with its closing quote, so nothing behind it is looked at.
    have hprefix : written ++ [u] <+: front ++ behind := by
      rw [hunits, List.append_cons written u others]
      exact List.prefix_append _ _
    have hfront : written ++ [u] = front := eq_of_prefix hprefix (by simpa using hwidth.symm)
    rw [← hfront, List.append_assoc, List.singleton_append,
      scan_of_quotedContent? hquote (quotedContent?_escaped hquote.facts.1 hescaped)]
    simp
  · rw [scan_of_isMark hmark] at h ⊢
    exact h

/-- With more white space around them the tokens of some units are moved and otherwise the same. -/
theorem scanAll_loosened (h : scanAll afterPoint start units = .ok tokens)
    (hloosens : Loosens tokens gaps) :
    scanAll afterPoint (start + CodeUnit.shift gaps start) (CodeUnit.loosened gaps start units) =
      .ok (tokens.map (moved gaps)) := by
  fun_induction scanAll afterPoint start units generalizing tokens with
  | case1 afterPoint start =>
    cases h
    rw [CodeUnit.loosened, ← List.append_nil (gaps start), scanAll_blanks (hloosens.blank start),
      scanAll]
    rfl
  | case2 afterPoint start u rest hblank ih =>
    rw [CodeUnit.loosened, scanAll_blanks (hloosens.blank start), scanAll, if_pos hblank,
      ← ih h hloosens, CodeUnit.shift]
    congr 1
    omega
  | case3 => cases h
  | case4 afterPoint start u rest hblank lexeme more hscan ih =>
    obtain ⟨others, hothers, hpair⟩ := Except.parts_of_bind h
    cases hpair
    obtain ⟨front, behind, rfl, rfl, hspelled⟩ := spelled_of_scan hscan
    have hgaps : ∀ index, start + 1 ≤ index → index < start + 1 + front.length →
        gaps index = [] := fun index hfrom hto ↦
      hloosens.outside _ List.mem_cons_self index (by dsimp only; omega) (by dsimp only; omega)
    have hrest := ih hothers
      ⟨hloosens.blank, fun token htoken ↦ hloosens.outside token (List.mem_cons_of_mem _ htoken)⟩
    rw [List.drop_left, CodeUnit.shift_add hgaps] at hrest
    rw [CodeUnit.loosened, scanAll_blanks (hloosens.blank start), scanAll, if_neg hblank,
      CodeUnit.loosened_append hgaps, scan_loosened hloosens.blank hscan]
    dsimp only
    have hposition : start + CodeUnit.shift gaps start + (gaps start).length + 1 + front.length =
        start + 1 + front.length + CodeUnit.shift gaps (start + 1) := by
      rw [CodeUnit.shift]
      omega
    rw [List.drop_left, hposition, hrest, List.map_cons, moved, CodeUnit.shift, ← Nat.add_assoc]
    rfl

/-! ### Texts without tokens -/

/-- The flaw of a text at a position: a unit that begins no token, or a quote behind which there is
no closing one. -/
def StopsAt (source : List CodeUnit) (position : Nat) (flaw : TemplateFlaw) : Prop :=
  ∃ u rest, source.drop position = u :: rest ∧ u.isBlank = false ∧
    ((flaw = .unexpectedCharacter u position ∧ u.isDigit = false ∧ u.beginsName = false ∧
      ¬u.IsQuote ∧ u.isMark = false) ∨
    (flaw = .unterminatedString position ∧ u.IsQuote ∧
      ∀ content written behind, Escaped u content written → rest ≠ written ++ u :: behind))

/-- Behind a quote there is no closing one where no quoted text can be read. -/
theorem ne_of_quotedContent?_eq_none (hquote : u.IsQuote) (h : quotedContent? u rest = none)
    {content written behind : List CodeUnit} (hescaped : Escaped u content written) :
    rest ≠ written ++ u :: behind := by
  rintro rfl
  rw [quotedContent?_escaped hquote.facts.1 hescaped] at h
  cases h

theorem stopsAt_of_scan {source : List CodeUnit} {flaw : TemplateFlaw}
    (hunits : source.drop position = u :: rest) (hblank : u.isBlank = false)
    (h : scan afterPoint position u rest = .error flaw) : StopsAt source position flaw := by
  refine ⟨u, rest, hunits, hblank, ?_⟩
  have hdigit : u.isDigit = false := by
    rw [← Bool.not_eq_true]
    intro hdigit
    rw [scan_of_isDigit hdigit] at h
    cases h
  have hname : u.beginsName = false := by
    rw [← Bool.not_eq_true]
    intro hname
    rw [scan_of_beginsName hname] at h
    cases h
  have hmark : u.isMark = false := by
    rw [← Bool.not_eq_true]
    intro hmark
    rw [scan_of_isMark hmark] at h
    cases h
  rw [scan, if_neg (by simp [hdigit]), if_neg (by simp [hname])] at h
  by_cases hquote : u.IsQuote
  · rw [if_pos (by simpa [CodeUnit.IsQuote] using hquote)] at h
    cases hcontent : quotedContent? u rest with
    | some found =>
      rw [hcontent] at h
      cases h
    | none =>
      rw [hcontent] at h
      cases h
      exact .inr ⟨rfl, hquote, fun _ _ _ ↦ ne_of_quotedContent?_eq_none hquote hcontent⟩
  · rw [if_neg (by simpa [CodeUnit.IsQuote] using hquote), if_neg (by simp [hmark])] at h
    cases h
    exact .inl ⟨rfl, hdigit, hname, hquote, hmark⟩

/-- A text from which no tokens are read has a flaw at one of its units. -/
theorem scanAll_stopsAt {source : List CodeUnit} {flaw : TemplateFlaw}
    (hunits : source.drop start = units) (h : scanAll afterPoint start units = .error flaw) :
    ∃ position, StopsAt source position flaw := by
  fun_induction scanAll afterPoint start units with
  | case1 => cases h
  | case2 afterPoint start u rest hblank ih =>
    exact ih (by rw [← List.tail_drop, hunits, List.tail_cons]) h
  | case3 afterPoint start u rest hblank thrown hscan =>
    obtain rfl := Except.error.inj h
    exact ⟨start, stopsAt_of_scan hunits (by simpa using hblank) hscan⟩
  | case4 afterPoint start u rest hblank lexeme more hscan ih =>
    refine ih (by rw [← List.drop_drop, ← List.tail_drop, hunits, List.tail_cons]) ?_
    cases hothers : scanAll (isPoint lexeme) (start + 1 + more) (rest.drop more) with
    | ok others =>
      rw [hothers] at h
      cases h
    | error thrown =>
      rw [hothers] at h
      exact congrArg Except.error (Except.error.inj h)

theorem StopsAt.lt_length {source : List CodeUnit} {flaw : TemplateFlaw}
    (h : StopsAt source position flaw) : position < source.length := by
  obtain ⟨u, rest, hunits, -⟩ := h
  by_contra hbehind
  rw [List.drop_eq_nil_of_le (by omega)] at hunits
  cases hunits

end Token

/-! ### The scan turn by turn -/

/-- A scan of a text that is under way: the tokens that it has found, the last first, and the
position that it has come to. -/
structure Scan where
  /-- The tokens so far. -/
  found : List Token
  /-- The position of the next unit. -/
  position : Nat

namespace Scan

variable {source : List CodeUnit} {scan next : Scan}

/-- A scan at the first unit of a text. -/
def start : Scan := ⟨[], 0⟩

/-- Whether a number that comes next has no fraction. -/
def afterPoint (scan : Scan) : Bool := scan.found.head?.any fun last ↦ Token.isPoint last.lexeme

/-- A turn of a scan, if there is a unit left: one blank unit is skipped or one token is read. -/
def turn (source : List CodeUnit) (scan : Scan) : Option (Except TemplateFlaw Scan) :=
  match source.drop scan.position with
  | [] => none
  | u :: rest =>
    if u.isBlank then some (.ok { scan with position := scan.position + 1 })
    else
      match Token.scan scan.afterPoint scan.position u rest with
      | .error flaw => some (.error flaw)
      | .ok (lexeme, more) =>
        some (.ok ⟨⟨lexeme, scan.position, more + 1⟩ :: scan.found, scan.position + 1 + more⟩)

/-- The tokens of a text when the scan ends within so many turns. -/
def advance (source : List CodeUnit) : Nat → Scan → Option (Except TemplateFlaw (List Token))
  | 0, _ => none
  | turns + 1, scan =>
    match scan.turn source with
    | none => some (.ok scan.found.reverse)
    | some (.error flaw) => some (.error flaw)
    | some (.ok next) => advance source turns next

section Turn

variable {u : CodeUnit} {rest : List CodeUnit}

theorem turn_of_isBlank (hunits : source.drop scan.position = u :: rest)
    (hblank : u.isBlank = true) :
    scan.turn source = some (.ok { scan with position := scan.position + 1 }) := by
  rw [turn, hunits]
  exact if_pos hblank

theorem turn_of_scan (hunits : source.drop scan.position = u :: rest)
    (hblank : u.isBlank = false) {lexeme : Lexeme} {more : Nat}
    (hscan : Token.scan scan.afterPoint scan.position u rest = .ok (lexeme, more)) :
    scan.turn source = some (.ok
      ⟨⟨lexeme, scan.position, more + 1⟩ :: scan.found, scan.position + 1 + more⟩) := by
  rw [turn, hunits]
  dsimp only
  rw [if_neg (by simp [hblank]), hscan]

theorem turn_of_flaw (hunits : source.drop scan.position = u :: rest)
    (hblank : u.isBlank = false) {flaw : TemplateFlaw}
    (hscan : Token.scan scan.afterPoint scan.position u rest = .error flaw) :
    scan.turn source = some (.error flaw) := by
  rw [turn, hunits]
  dsimp only
  rw [if_neg (by simp [hblank]), hscan]

end Turn

/-- A turn goes forward and not past the end. -/
theorem turn_forward (h : scan.turn source = some (.ok next)) :
    scan.position < next.position ∧ next.position ≤ source.length := by
  unfold turn at h
  split at h
  · cases h
  · next u rest hunits =>
    have hlength : source.length - scan.position = rest.length + 1 := by
      rw [← List.length_drop, hunits, List.length_cons]
    split at h
    · cases h
      constructor <;> dsimp only <;> omega
    · split at h
      · cases h
      · next lexeme more hscan =>
        cases h
        obtain ⟨front, behind, rfl, rfl, -⟩ := Token.spelled_of_scan hscan
        rw [List.length_append] at hlength
        constructor <;> dsimp only <;> omega

/-- A scan ends, and with those tokens that are read from the units that it has left. -/
theorem advance_eq {turns : Nat} (h : source.length - scan.position < turns) :
    advance source turns scan =
      some ((Token.scanAll scan.afterPoint scan.position (source.drop scan.position)).map
        (scan.found.reverse ++ ·)) := by
  induction turns generalizing scan with
  | zero => omega
  | succ turns ih =>
    have hnext : ∀ {next : Scan}, scan.turn source = some (.ok next) →
        source.length - next.position < turns := fun hturn ↦ by
      have := turn_forward hturn
      omega
    rw [advance]
    cases hunits : source.drop scan.position with
    | nil =>
      rw [turn, hunits, Token.scanAll]
      simp [Except.map]
    | cons u rest =>
      have hdrop : ∀ more, source.drop (scan.position + 1 + more) = rest.drop more := fun more ↦ by
        rw [← List.drop_drop, ← List.tail_drop, hunits, List.tail_cons]
      rw [Token.scanAll]
      cases hblank : u.isBlank with
      | true =>
        have hturn := turn_of_isBlank hunits hblank
        rw [hturn, if_pos rfl]
        dsimp only
        rw [ih (hnext hturn), hdrop 0]
        rfl
      | false =>
        rw [if_neg (by simp)]
        cases hscan : Token.scan scan.afterPoint scan.position u rest with
        | error flaw =>
          rw [turn_of_flaw hunits hblank hscan]
          rfl
        | ok found =>
          obtain ⟨lexeme, more⟩ := found
          have hturn := turn_of_scan hunits hblank hscan
          rw [hturn]
          dsimp only
          have hpoint : (Scan.mk (⟨lexeme, scan.position, more + 1⟩ :: scan.found)
              (scan.position + 1 + more)).afterPoint = Token.isPoint lexeme := rfl
          rw [ih (hnext hturn), hdrop more, hpoint]
          cases Token.scanAll (Token.isPoint lexeme) (scan.position + 1 + more)
            (rest.drop more) with
          | error flaw => rfl
          | ok others =>
            have hfound : (⟨lexeme, scan.position, more + 1⟩ :: scan.found).reverse ++ others =
                scan.found.reverse ++ ⟨lexeme, scan.position, more + 1⟩ :: others := by simp
            exact congrArg (fun tokens ↦ some (Except.ok tokens)) hfound

end Scan

namespace Token

/-- The scan of every text ends, at the latest in the turn behind its last unit. If it ends with
tokens, these account for all units of the text, and more white space around them moves them and
does nothing else; otherwise it has come to a flaw at one of the units. -/
theorem tokenize_accounts (source : Text) :
    (∀ turns, source.units.length < turns →
      Scan.advance source.units turns .start = some (tokenize source)) ∧
    match tokenize source with
    | .ok tokens => Accounts 0 source.units tokens ∧ ∀ gaps, Loosens tokens gaps →
        tokenize (source.loosened gaps) = .ok (tokens.map (moved gaps))
    | .error flaw => ∃ position < source.units.length, StopsAt source.units position flaw := by
  constructor
  · intro turns hturns
    rw [Scan.advance_eq (by simpa [Scan.start] using hturns)]
    change some ((tokenize source).map ([] ++ ·)) = _
    cases tokenize source <;> rfl
  · cases htokens : tokenize source with
    | ok tokens => exact ⟨scanAll_accounts htokens, fun gaps ↦ scanAll_loosened htokens⟩
    | error flaw =>
      have hstart : source.units.drop 0 = source.units := rfl
      obtain ⟨position, hstops⟩ := scanAll_stopsAt hstart htokens
      exact ⟨position, hstops.lt_length, hstops⟩

/-- A blank before the sixth unit. -/
def sixthApart (position : Nat) : List CodeUnit := if position = 5 then [0x20] else []

/-- A name, a point and an index, and the same with a blank behind the point. -/
theorem tokenize_accounts_index :
    ∃ tokens, tokenize "rows.10" = .ok tokens ∧ tokens.map position = [0, 4, 5] ∧
      Loosens tokens sixthApart ∧ Accounts 0 (Text.ofString "rows.10").units tokens ∧
      tokenize "rows. 10" = .ok (tokens.map (moved sixthApart)) := by
  obtain ⟨hadvance, haccounts⟩ := tokenize_accounts "rows.10"
  have hspans : ((Scan.advance (Text.ofString "rows.10").units 8 .start).bind
      Except.toOption).map (·.map fun token ↦ (token.position, token.width)) =
        some [(0, 4), (4, 1), (5, 2)] := by decide +kernel
  rw [hadvance 8 (by decide)] at hspans
  cases htokens : tokenize "rows.10" with
  | error flaw =>
    rw [htokens] at hspans
    cases hspans
  | ok tokens =>
    rw [htokens] at hspans haccounts
    replace hspans : tokens.map (fun token ↦ (token.position, token.width)) =
      [(0, 4), (4, 1), (5, 2)] := Option.some.inj hspans
    have hpositions := congrArg (List.map Prod.fst) hspans
    rw [List.map_map] at hpositions
    have hloosens : Loosens tokens sixthApart := by
      refine ⟨fun index u hu ↦ ?_, fun token htoken index hfrom hto ↦ if_neg ?_⟩
      · unfold sixthApart at hu
        split at hu
        · obtain rfl := List.mem_singleton.mp hu
          decide
        · cases hu
      · have hspan := List.mem_map_of_mem (f := fun token ↦ (token.position, token.width)) htoken
        rw [hspans] at hspan
        simp only [List.mem_cons, Prod.mk.injEq, List.not_mem_nil, or_false] at hspan
        omega
    refine ⟨tokens, rfl, hpositions, hloosens, haccounts.1, ?_⟩
    have hsource : Text.loosened sixthApart "rows.10" = Text.ofString "rows. 10" := by decide
    exact hsource ▸ haccounts.2 sixthApart hloosens

end Token

end BrowserFlow
