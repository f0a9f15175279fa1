import BrowserFlow.Proofs.Expression.Grammar
import BrowserFlow.Proofs.Expression.Words

/-!
Expressions in writing. `Expression.Written` says which words an expression is
written with where operators of a level stand: parentheses are put around an
operation exactly when it binds less than its place asks for, and the operand to
the right of an operator has to bind tighter than the operator. Any white space,
either quote, any escape that makes no difference and any numeral that reads as the
number are allowed. Every expression of plain literals and paths can be written
(`Expression.IsPlain.exists_written`), and whatever it is written as is read as the
expression again (`Expression.read_written`).
-/

set_option autoImplicit false
set_option relaxedAutoImplicit false

namespace BrowserFlow

/-! ### What can be written -/

/-- A step that can be written: a member of any name, or an index that is an integer without a minus
sign. -/
def Segment.IsPlain : Segment → Prop
  | .name _ => True
  | .index x => x.isInteger = true ∧ x.isNegative = false

namespace Expression

/-- Expressions of literals without items and members, without negative numbers, and of paths that
begin with a name which is no literal. -/
inductive IsPlain : Expression → Prop
  /-- A name that stands for a value. -/
  | constant {name : Text} {value : Value} (h : literalOfName? name = some value) :
      IsPlain (.literal value)
  /-- A text. -/
  | text (t : Text) : IsPlain (.literal (.text t))
  /-- A number without a minus sign. -/
  | number {x : Number} (hfinite : x.isFinite = true) (hsign : x.isNegative = false) :
      IsPlain (.literal (.number x))
  /-- A path. -/
  | path {root : Text} {steps : List Segment} (hname : root.isName = true)
      (hvalue : literalOfName? root = none) (hsteps : ∀ step ∈ steps, step.IsPlain) :
      IsPlain (.path root steps)
  /-- A negation. -/
  | negate {operand : Expression} (h : IsPlain operand) : IsPlain (.negate operand)
  /-- An operation. -/
  | binary (operator : Operator) {left right : Expression} (hleft : IsPlain left)
      (hright : IsPlain right) : IsPlain (.binary operator left right)

/-! ### Writing -/

/-- The words of the steps of a path. A name and an index can stand behind a point, any member and
an index in brackets. -/
inductive WrittenSteps : List Segment → List Word → Prop
  /-- There are no more steps. -/
  | none : WrittenSteps [] []
  /-- A name behind a point. -/
  | member {point word : Word} {key : Text} {steps : List Segment} {words : List Word}
      (hpoint : point.lexeme = .mark '.') (hword : word.lexeme = .name key)
      (hrest : WrittenSteps steps words) :
      WrittenSteps (.name key :: steps) (point :: word :: words)
  /-- An integer behind a point. -/
  | place {point word : Word} {x : Number} {steps : List Segment} {words : List Word}
      (hpoint : point.lexeme = .mark '.') (hword : word.lexeme = .number x)
      (hdigits : IsDigits word.units) (hinteger : x.isInteger = true)
      (hrest : WrittenSteps steps words) : WrittenSteps (.index x :: steps) (point :: word :: words)
  /-- A quoted text in brackets. -/
  | quoted {bracket word close : Word} {key : Text} {steps : List Segment} {words : List Word}
      (hbracket : bracket.lexeme = .mark '[') (hword : word.lexeme = .quoted key)
      (hclose : close.lexeme = .mark ']') (hrest : WrittenSteps steps words) :
      WrittenSteps (.name key :: steps) (bracket :: word :: close :: words)
  /-- An integer in brackets. -/
  | index {bracket word close : Word} {x : Number} {steps : List Segment} {words : List Word}
      (hbracket : bracket.lexeme = .mark '[') (hword : word.lexeme = .number x)
      (hdigits : IsDigits word.units) (hinteger : x.isInteger = true)
      (hclose : close.lexeme = .mark ']') (hrest : WrittenSteps steps words) :
      WrittenSteps (.index x :: steps) (bracket :: word :: close :: words)

/-- The words of an expression at a level: 0 where sums can stand, 1 where products can, and 2 where
neither can. -/
inductive Written : Nat → Expression → List Word → Prop
  /-- A name that stands for a value. -/
  | constant {level : Nat} {word : Word} {name : Text} {value : Value}
      (hword : word.lexeme = .name name) (hvalue : literalOfName? name = some value) :
      Written level (.literal value) [word]
  /-- A text in quotes. -/
  | quoted {level : Nat} {word : Word} {t : Text} (hword : word.lexeme = .quoted t) :
      Written level (.literal (.text t)) [word]
  /-- A numeral. -/
  | number {level : Nat} {word : Word} {x : Number} (hword : word.lexeme = .number x) :
      Written level (.literal (.number x)) [word]
  /-- The name of a variable and steps. -/
  | path {level : Nat} {word : Word} {root : Text} {steps : List Segment} {words : List Word}
      (hword : word.lexeme = .name root) (hvalue : literalOfName? root = none)
      (hsteps : WrittenSteps steps words) : Written level (.path root steps) (word :: words)
  /-- A minus sign before an operand that is neither a sum nor a product. -/
  | negate {level : Nat} {minus : Word} {operand : Expression} {words : List Word}
      (hminus : minus.lexeme = .mark '-') (h : Written 2 operand words) :
      Written level (.negate operand) (minus :: words)
  /-- An operation that binds tightly enough. The left operand may be an operation of the same
  level. -/
  | binary {level : Nat} {operator : Operator} {mark : Word} {left right : Expression}
      {before behind : List Word} (hlevel : level ≤ operator.level)
      (hleft : Written operator.level left before) (hmark : mark.lexeme = .mark operator.mark)
      (hright : Written (operator.level + 1) right behind) :
      Written level (.binary operator left right) (before ++ mark :: behind)
  /-- An operation that binds too little, in parentheses. -/
  | enclosed {level : Nat} {operator : Operator} {opening closing : Word} {left right : Expression}
      {words : List Word} (hlevel : operator.level < level)
      (hopening : opening.lexeme = .mark '(') (h : Written 0 (.binary operator left right) words)
      (hclosing : closing.lexeme = .mark ')') :
      Written level (.binary operator left right) (opening :: words ++ [closing])

/-- A text that an expression can be written as. -/
def IsWritten (expression : Expression) (source : Text) : Prop :=
  ∃ words, Written 0 expression words ∧ Spaced words source.units

/-! ### Every plain expression can be written -/

end Expression

namespace Word

/-- A mark as a word. -/
def ofMark (u : CodeUnit) (h : u.isMark = true) : Word := ⟨.mark u, [u], .mark h⟩

theorem lexeme_ofMark (u : CodeUnit) (h : u.isMark = true) : (ofMark u h).lexeme = .mark u := rfl

/-- A name as a word. -/
def ofName (t : Text) (h : t.isName = true) : Word := ⟨.name t, t.units, .name h⟩

end Word

/-- Units with a backslash before each that would not stand for itself between quotes. -/
theorem exists_escaped {quote : CodeUnit} (hquote : quote.IsQuote) (content : List CodeUnit) :
    ∃ written, Escaped quote content written := by
  induction content with
  | nil => exact ⟨[], .nil⟩
  | cons u content ih =>
    obtain ⟨written, hwritten⟩ := ih
    by_cases hplain : u ≠ quote ∧ u ≠ '\\'
    · exact ⟨u :: written, .plain hplain.1 hplain.2 hwritten⟩
    · have hsame : u.unescaped = u := by
        rcases not_and_or.mp hplain with h | h
        · obtain rfl := not_ne_iff.mp h
          rcases hquote with rfl | rfl <;> decide
        · obtain rfl := not_ne_iff.mp h
          decide
      have hescape := Escaped.escape (u := u) hwritten
      rw [hsame] at hescape
      exact ⟨'\\' :: u :: written, hescape⟩

theorem Word.exists_quoted (t : Text) : ∃ word : Word, word.lexeme = .quoted t := by
  have hquote : CodeUnit.IsQuote '"' := .inl rfl
  obtain ⟨written, hwritten⟩ := exists_escaped hquote t.units
  exact ⟨⟨.quoted t, _, .quoted hquote hwritten⟩, rfl⟩

theorem Spaced.blanks {words : List Word} {units gap : List CodeUnit} (h : Spaced words units)
    (hgap : ∀ u ∈ gap, u.isBlank = true) : Spaced words (gap ++ units) := by
  induction gap with
  | nil => exact h
  | cons u gap ih =>
    obtain ⟨hu, hgap⟩ := List.forall_mem_cons.mp hgap
    exact .blank hu (ih hgap)

/-- Words make up the text in which the same white space comes behind each. -/
theorem spaced_flatMap (gap : List CodeUnit) (hgap : ∀ u ∈ gap, u.isBlank = true)
    (words : List Word) : Spaced words (words.flatMap fun word ↦ word.units ++ gap) := by
  induction words with
  | nil => exact .nil
  | cons word words ih =>
    rw [List.flatMap_cons, List.append_assoc]
    exact .word word (ih.blanks hgap)

namespace Expression

theorem exists_writtenSteps {steps : List Segment} (h : ∀ step ∈ steps, step.IsPlain) :
    ∃ words, WrittenSteps steps words := by
  have hbracket : CodeUnit.isMark '[' = true := by decide
  have hclose : CodeUnit.isMark ']' = true := by decide
  induction steps with
  | nil => exact ⟨[], .none⟩
  | cons step steps ih =>
    obtain ⟨hstep, hsteps⟩ := List.forall_mem_cons.mp h
    obtain ⟨words, hwords⟩ := ih hsteps
    cases step with
    | name key =>
      obtain ⟨word, hword⟩ := Word.exists_quoted key
      exact ⟨.ofMark '[' hbracket :: word :: .ofMark ']' hclose :: words,
        .quoted rfl hword rfl hwords⟩
    | index x =>
      obtain ⟨digits, hdigits, hread⟩ := Number.exists_digits hstep.1 hstep.2
      exact ⟨.ofMark '[' hbracket :: ⟨.number x, digits, .number (.inl hdigits) hread⟩ ::
        .ofMark ']' hclose :: words, .index rfl rfl hdigits hstep.1 rfl hwords⟩

theorem isName_of_literalOfName? {name : Text} {value : Value}
    (h : literalOfName? name = some value) : name.isName = true := by
  unfold literalOfName? at h
  split at h
  · next heq =>
    subst heq
    decide
  · split at h
    · next heq =>
      subst heq
      decide
    · split at h
      · next heq =>
        subst heq
        decide
      · cases h

/-- Every plain expression can be written wherever operators of a level stand. -/
theorem IsPlain.exists_written {expression : Expression} (h : expression.IsPlain) :
    ∀ level, ∃ words, Written level expression words := by
  induction h with
  | @constant name value hvalue =>
    exact fun level ↦ ⟨[.ofName name (isName_of_literalOfName? hvalue)], .constant rfl hvalue⟩
  | text t =>
    obtain ⟨word, hword⟩ := Word.exists_quoted t
    exact fun level ↦ ⟨[word], .quoted hword⟩
  | @number x hfinite hsign =>
    obtain ⟨units, hunits, hread⟩ := Number.exists_numeral hfinite hsign
    exact fun level ↦ ⟨[⟨.number x, units, .number hunits hread⟩], .number rfl⟩
  | @path root steps hname hvalue hsteps =>
    obtain ⟨words, hwords⟩ := exists_writtenSteps hsteps
    exact fun level ↦ ⟨.ofName root hname :: words, .path rfl hvalue hwords⟩
  | negate _ ih =>
    obtain ⟨words, hwords⟩ := ih 2
    exact fun level ↦ ⟨.ofMark '-' (by decide) :: words, .negate rfl hwords⟩
  | binary operator _ _ ihleft ihright =>
    obtain ⟨before, hbefore⟩ := ihleft operator.level
    obtain ⟨behind, hbehind⟩ := ihright (operator.level + 1)
    have hmark : operator.mark.isMark = true := by cases operator <;> decide
    intro level
    by_cases hlevel : level ≤ operator.level
    · exact ⟨_, .binary hlevel hbefore (Word.lexeme_ofMark _ hmark) hbehind⟩
    · have hinner := Written.binary (Nat.zero_le _) hbefore (Word.lexeme_ofMark _ hmark) hbehind
      exact ⟨_, .enclosed (by omega) (Word.lexeme_ofMark '(' (by decide)) hinner
        (Word.lexeme_ofMark ')' (by decide))⟩

/-! ### The words of an expression do not run into each other -/

end Expression

/-- Words that can come behind any words of an expression. -/
structure Follows (words : List Word) : Prop where
  /-- They begin with a mark. -/
  breaks : Breaks words
  /-- The mark is not a point. -/
  noPoint : NoPoint words
  /-- They can be told apart. -/
  legible : Legible false words

theorem follows_nil : Follows [] := ⟨by simp [Breaks], by simp [NoPoint], trivial⟩

section Marks

variable {word : Word} {u : CodeUnit} {words : List Word}

/-- Only a point matters for what comes behind a mark. -/
theorem Legible.mark {afterPoint : Bool} (h : word.lexeme = .mark u) (hpoint : u ≠ '.')
    (hwords : Legible false words) : Legible afterPoint (word :: words) := by
  rw [legible_mark h, beq_eq_false_iff_ne.mpr hpoint]
  exact hwords

theorem Follows.mark (h : word.lexeme = .mark u) (hpoint : u ≠ '.')
    (hwords : Legible false words) : Follows (word :: words) where
  breaks := breaks_mark h
  noPoint := by
    intro first hfirst hmark
    obtain rfl := Option.some.inj hfirst
    exact hpoint (Lexeme.mark.inj (h.symm.trans hmark))
  legible := .mark h hpoint hwords

end Marks

namespace Expression

variable {expression : Expression} {steps : List Segment} {words more : List Word} {level : Nat}

theorem operator_mark_ne_point (operator : Operator) : operator.mark ≠ '.' := by
  cases operator <;> decide

theorem WrittenSteps.legible (h : WrittenSteps steps words) (hmore : Follows more) :
    Breaks (words ++ more) ∧ Legible false (words ++ more) := by
  induction h with
  | none => exact ⟨hmore.breaks, hmore.legible⟩
  | member hpoint hword _ ih =>
    exact ⟨breaks_mark hpoint, (legible_mark hpoint).mpr ((legible_name hword).mpr ih)⟩
  | place hpoint hword hdigits _ _ ih =>
    exact ⟨breaks_mark hpoint, (legible_mark hpoint).mpr
      ((legible_number hword).mpr ⟨ih.1, by simpa using hdigits, ih.2⟩)⟩
  | quoted hbracket hword hclose _ ih =>
    have hbehind := Follows.mark hclose (by decide) ih.2
    exact ⟨breaks_mark hbracket, .mark hbracket (by decide)
      ((legible_quoted hword).mpr ⟨hbehind.breaks, hbehind.legible⟩)⟩
  | index hbracket hword _ _ hclose _ ih =>
    have hbehind := Follows.mark hclose (by decide) ih.2
    exact ⟨breaks_mark hbracket, .mark hbracket (by decide)
      ((legible_number hword).mpr ⟨hbehind.breaks, fun _ ↦ hbehind.noPoint, hbehind.legible⟩)⟩

/-- The words of an expression can be told apart, also from those behind them. -/
theorem Written.legible (h : Written level expression words) :
    ∀ more, Follows more → Legible false (words ++ more) := by
  induction h with
  | constant hword _ =>
    exact fun more hmore ↦ (legible_name hword).mpr ⟨hmore.breaks, hmore.legible⟩
  | quoted hword =>
    exact fun more hmore ↦ (legible_quoted hword).mpr ⟨hmore.breaks, hmore.legible⟩
  | number hword =>
    exact fun more hmore ↦
      (legible_number hword).mpr ⟨hmore.breaks, fun _ ↦ hmore.noPoint, hmore.legible⟩
  | path hword _ hsteps =>
    exact fun more hmore ↦ (legible_name hword).mpr (hsteps.legible hmore)
  | negate hminus _ ih =>
    exact fun more hmore ↦ .mark hminus (by decide) (ih more hmore)
  | @binary _ operator _ _ _ _ _ _ _ hmark _ ihleft ihright =>
    intro more hmore
    rw [List.append_assoc]
    exact ihleft _ (.mark hmark (operator_mark_ne_point operator) (ihright more hmore))
  | enclosed _ hopening _ hclosing ih =>
    intro more hmore
    rw [List.cons_append, List.cons_append, List.append_assoc]
    exact .mark hopening (by decide) (ih _ (.mark hclosing (by decide) hmore.legible))

/-! ### The words of an expression are in the grammar -/

theorem WrittenSteps.derives (h : WrittenSteps steps words) :
    ∀ tokens : List Token, tokens.map Token.lexeme = words.map Word.lexeme →
      DerivesSteps tokens steps := by
  induction h with
  | none =>
    intro tokens htokens
    obtain rfl := List.map_eq_nil_iff.mp htokens
    exact .none
  | member hpoint hword _ ih =>
    intro tokens htokens
    obtain ⟨point, others, rfl, hsame, hothers⟩ := List.map_eq_cons_iff.mp htokens
    obtain ⟨token, others, rfl, hsame', hothers⟩ := List.map_eq_cons_iff.mp hothers
    exact .member (hsame.trans hpoint) (hsame'.trans hword) (ih others hothers)
  | place hpoint hword _ hinteger _ ih =>
    intro tokens htokens
    obtain ⟨point, others, rfl, hsame, hothers⟩ := List.map_eq_cons_iff.mp htokens
    obtain ⟨token, others, rfl, hsame', hothers⟩ := List.map_eq_cons_iff.mp hothers
    exact .place (hsame.trans hpoint) (hsame'.trans hword) hinteger (ih others hothers)
  | quoted hbracket hword hclose _ ih =>
    intro tokens htokens
    obtain ⟨bracket, others, rfl, hsame, hothers⟩ := List.map_eq_cons_iff.mp htokens
    obtain ⟨token, others, rfl, hsame', hothers⟩ := List.map_eq_cons_iff.mp hothers
    obtain ⟨close, others, rfl, hsame'', hothers⟩ := List.map_eq_cons_iff.mp hothers
    exact .quoted (hsame.trans hbracket) (hsame'.trans hword) (hsame''.trans hclose)
      (ih others hothers)
  | index hbracket hword _ hinteger hclose _ ih =>
    intro tokens htokens
    obtain ⟨bracket, others, rfl, hsame, hothers⟩ := List.map_eq_cons_iff.mp htokens
    obtain ⟨token, others, rfl, hsame', hothers⟩ := List.map_eq_cons_iff.mp hothers
    obtain ⟨close, others, rfl, hsame'', hothers⟩ := List.map_eq_cons_iff.mp hothers
    exact .index (hsame.trans hbracket) (hsame'.trans hword) hinteger (hsame''.trans hclose)
      (ih others hothers)

/-- What derives at a level stands at every level below. -/
theorem Derives.lower {high : Nat} {tokens : List Token} (hlevel : level ≤ high) (hhigh : high ≤ 3)
    (h : Derives high tokens expression) : Derives level tokens expression := by
  induction hlevel using Nat.decreasingInduction with
  | of_succ low hlow ih => exact .lift (by omega) ih
  | self => exact h

/-- Tokens that say what the words of an expression say derive the expression. -/
theorem Written.derives (h : Written level expression words) (hlevel : level ≤ 2) :
    ∀ tokens : List Token, tokens.map Token.lexeme = words.map Word.lexeme →
      Derives level tokens expression := by
  induction h with
  | constant hword hvalue =>
    intro tokens htokens
    obtain ⟨token, rfl, hsame⟩ := List.map_eq_singleton_iff.mp htokens
    exact .lower (by omega) le_rfl (.constant (hsame.trans hword) hvalue)
  | quoted hword =>
    intro tokens htokens
    obtain ⟨token, rfl, hsame⟩ := List.map_eq_singleton_iff.mp htokens
    exact .lower (by omega) le_rfl (.quoted (hsame.trans hword))
  | number hword =>
    intro tokens htokens
    obtain ⟨token, rfl, hsame⟩ := List.map_eq_singleton_iff.mp htokens
    exact .lower (by omega) le_rfl (.number (hsame.trans hword))
  | path hword hvalue hsteps =>
    intro tokens htokens
    obtain ⟨token, others, rfl, hsame, hothers⟩ := List.map_eq_cons_iff.mp htokens
    exact .lower (by omega) le_rfl
      (.path (hsame.trans hword) hvalue (hsteps.derives others hothers))
  | negate hminus _ ih =>
    intro tokens htokens
    obtain ⟨minus, others, rfl, hsame, hothers⟩ := List.map_eq_cons_iff.mp htokens
    exact .lower hlevel (by omega) (.negated (hsame.trans hminus) (ih le_rfl others hothers))
  | @binary level operator _ _ _ _ _ hlower _ hmark _ ihleft ihright =>
    intro tokens htokens
    have hoperator : operator.level ≤ 1 := by cases operator <;> decide
    rw [List.map_append, List.map_cons] at htokens
    obtain ⟨before, others, rfl, hbefore, hothers⟩ := List.map_eq_append_iff.mp htokens
    obtain ⟨mark, behind, rfl, hsame, hbehind⟩ := List.map_eq_cons_iff.mp hothers
    exact .lower hlower (by omega) (.binary (ihleft (by omega) before hbefore)
      (hsame.trans hmark) (ihright (by omega) behind hbehind))
  | enclosed _ hopening _ hclosing ih =>
    intro tokens htokens
    rw [List.cons_append, List.map_cons, List.map_append, List.map_singleton] at htokens
    obtain ⟨opening, others, rfl, hsame, hothers⟩ := List.map_eq_cons_iff.mp htokens
    obtain ⟨inner, last, rfl, hinner, hlast⟩ := List.map_eq_append_iff.mp hothers
    obtain ⟨closing, rfl, hsame'⟩ := List.map_eq_singleton_iff.mp hlast
    exact .lower (by omega) le_rfl (.enclosed (hsame.trans hopening)
      (ih (by omega) inner hinner) (hsame'.trans hclosing))

/-- Every plain expression can be written, and whatever it is written as is read as the
expression. -/
theorem read_written (h : expression.IsPlain) : (∃ source, expression.IsWritten source) ∧
    ∀ source, expression.IsWritten source → read source = .ok expression := by
  constructor
  · obtain ⟨words, hwords⟩ := h.exists_written 0
    exact ⟨⟨_⟩, words, hwords, spaced_flatMap [] (by simp) words⟩
  · rintro source ⟨words, hwords, hspaced⟩
    have hlegible := hwords.legible [] follows_nil
    rw [List.append_nil] at hlegible
    obtain ⟨tokens, htokens, hlexemes⟩ := Token.scanAll_spaced hspaced false 0 hlegible
    have hread := ofTokens_of_derives (hwords.derives (by omega) tokens hlexemes)
    rw [read, Token.tokenize, htokens]
    exact hread

/-- The remainder of a negated difference. -/
def negatedDifference : Expression :=
  .binary .modulo
    (.negate (.binary .minus (.path "rows" [.index 0, .index 5]) (.literal (.text "a\"b"))))
    (.path "x" [.name "k"])

/-- What the difference is written as. The difference binds less than a sign, so that it stands in
parentheses; the product is the outermost operation and needs none. -/
def negatedDifferenceSource : Text := "- ( rows . 0 . 5 - \"a\\\"b\" ) % x [ 'k' ] "

theorem read_written_negatedDifference : negatedDifference.IsPlain ∧
    negatedDifference.IsWritten negatedDifferenceSource ∧
      read negatedDifferenceSource = .ok negatedDifference := by
  have hindices : ∀ step ∈ [Segment.index 0, .index 5], step.IsPlain := by
    have hzero : Number.isInteger 0 = true ∧ Number.isNegative 0 = false := by decide +kernel
    have hfive : Number.isInteger 5 = true ∧ Number.isNegative 5 = false := by decide +kernel
    simpa [Segment.IsPlain] using ⟨hzero, hfive⟩
  have hplain : negatedDifference.IsPlain :=
    .binary _ (.negate (.binary _ (.path (by decide) (by decide) hindices) (.text _)))
      (.path (by decide) (by decide) (by simp [Segment.IsPlain]))
  let zero : Word := ⟨.number 0, ['0'], .number (.inl (by decide +kernel)) (by decide +kernel)⟩
  let five : Word := ⟨.number 5, ['5'], .number (.inl (by decide +kernel)) (by decide +kernel)⟩
  let point : Word := .ofMark '.' (by decide)
  let text : Word := ⟨.quoted "a\"b", _, .quoted (.inl rfl) (.plain (by decide) (by decide)
    (.escape (u := '"') (.plain (by decide) (by decide) .nil)))⟩
  let key : Word := ⟨.quoted "k", _, .quoted (.inr rfl) (.plain (by decide) (by decide) .nil)⟩
  have hrows : Written 0 (.path "rows" [.index 0, .index 5])
      (.ofName "rows" (by decide +kernel) :: [point, zero, point, five]) :=
    .path rfl (by decide +kernel) (.place rfl rfl (by decide +kernel) (by decide +kernel)
      (.place rfl rfl (by decide +kernel) (by decide +kernel) .none))
  have hoperands := @Written.binary 0 .minus (.ofMark '-' (by decide)) _ _ _ [text] le_rfl hrows rfl
    (.quoted rfl)
  have hdifference := @Written.enclosed 2 .minus (.ofMark '(' (by decide)) (.ofMark ')' (by decide))
    _ _ _ (by decide) rfl hoperands rfl
  have hx : Written 2 (.path "x" [.name "k"]) (.ofName "x" (by decide) ::
      [.ofMark '[' (by decide), key, .ofMark ']' (by decide)]) :=
    .path rfl (by decide) (.quoted rfl rfl rfl .none)
  have hnegated := @Written.negate 1 (.ofMark '-' (by decide)) _ _ rfl hdifference
  have hwritten := @Written.binary 0 .modulo (.ofMark '%' (by decide)) _ _ _ _ (Nat.zero_le _)
    hnegated rfl hx
  have hsource : negatedDifference.IsWritten negatedDifferenceSource :=
    ⟨_, hwritten, spaced_flatMap [' '] (List.forall_mem_singleton.mpr (by decide)) _⟩
  exact ⟨hplain, hsource, (read_written hplain).2 _ hsource⟩

end Expression

end BrowserFlow
