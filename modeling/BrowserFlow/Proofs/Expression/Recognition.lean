import BrowserFlow.Proofs.Expression.Grammar
import BrowserFlow.Proofs.Fault.Thrown

/-!
The reader of expressions recognises the grammar. What it reads is derived from the
tokens that it takes, and it leaves the others as they are (`Expression.IsSound`), by
induction on the steps it may take, all its parts together. With the reading of what
the grammar derives this makes the two the same, so that a list of tokens is at most
one expression. A sum or a product is a row of operands with an operator before each
but the first, applied from the left (`Expression.derives_iff_row`). The bound on the
steps is no part of what the reader does: two bounds that leave four steps for every
token give the same result (`Expression.Agrees`), so the reader stops by itself. All
of this together is `Expression.ofTokens_recognises`.
-/

set_option autoImplicit false
set_option relaxedAutoImplicit false

namespace BrowserFlow.Expression

variable {tokens before rest : List Token} {token : Token} {operator : Operator}
  {expression left right : Expression} {level : Nat}

/-! ### What the grammar looks at -/

/-- Tokens that say the same have the same steps. -/
theorem DerivesSteps.of_lexemes {steps : List Segment} (h : DerivesSteps tokens steps) :
    ∀ others : List Token, others.map Token.lexeme = tokens.map Token.lexeme →
      DerivesSteps others steps := by
  induction h with
  | none =>
    intro others hsame
    obtain rfl := List.map_eq_nil_iff.mp hsame
    exact .none
  | member hpoint htoken _ ih =>
    intro others hsame
    obtain ⟨point, others, rfl, hfirst, hsame⟩ := List.map_eq_cons_iff.mp hsame
    obtain ⟨token, others, rfl, hsecond, hsame⟩ := List.map_eq_cons_iff.mp hsame
    exact .member (hfirst.trans hpoint) (hsecond.trans htoken) (ih others hsame)
  | place hpoint htoken hinteger _ ih =>
    intro others hsame
    obtain ⟨point, others, rfl, hfirst, hsame⟩ := List.map_eq_cons_iff.mp hsame
    obtain ⟨token, others, rfl, hsecond, hsame⟩ := List.map_eq_cons_iff.mp hsame
    exact .place (hfirst.trans hpoint) (hsecond.trans htoken) hinteger (ih others hsame)
  | quoted hbracket htoken hclose _ ih =>
    intro others hsame
    obtain ⟨bracket, others, rfl, hfirst, hsame⟩ := List.map_eq_cons_iff.mp hsame
    obtain ⟨token, others, rfl, hsecond, hsame⟩ := List.map_eq_cons_iff.mp hsame
    obtain ⟨close, others, rfl, hthird, hsame⟩ := List.map_eq_cons_iff.mp hsame
    exact .quoted (hfirst.trans hbracket) (hsecond.trans htoken) (hthird.trans hclose)
      (ih others hsame)
  | index hbracket htoken hinteger hclose _ ih =>
    intro others hsame
    obtain ⟨bracket, others, rfl, hfirst, hsame⟩ := List.map_eq_cons_iff.mp hsame
    obtain ⟨token, others, rfl, hsecond, hsame⟩ := List.map_eq_cons_iff.mp hsame
    obtain ⟨close, others, rfl, hthird, hsame⟩ := List.map_eq_cons_iff.mp hsame
    exact .index (hfirst.trans hbracket) (hsecond.trans htoken) hinteger (hthird.trans hclose)
      (ih others hsame)

/-- Tokens that say the same are the same expression: the grammar does not look at positions. -/
theorem Derives.of_lexemes (h : Derives level tokens expression) :
    ∀ others : List Token, others.map Token.lexeme = tokens.map Token.lexeme →
      Derives level others expression := by
  induction h with
  | lift hlevel _ ih => exact fun others hsame ↦ .lift hlevel (ih others hsame)
  | number htoken =>
    intro others hsame
    obtain ⟨token, rfl, hfirst⟩ := List.map_eq_singleton_iff.mp hsame
    exact .number (hfirst.trans htoken)
  | quoted htoken =>
    intro others hsame
    obtain ⟨token, rfl, hfirst⟩ := List.map_eq_singleton_iff.mp hsame
    exact .quoted (hfirst.trans htoken)
  | constant htoken hvalue =>
    intro others hsame
    obtain ⟨token, rfl, hfirst⟩ := List.map_eq_singleton_iff.mp hsame
    exact .constant (hfirst.trans htoken) hvalue
  | path htoken hvalue hsteps =>
    intro others hsame
    obtain ⟨token, others, rfl, hfirst, hsame⟩ := List.map_eq_cons_iff.mp hsame
    exact .path (hfirst.trans htoken) hvalue (hsteps.of_lexemes others hsame)
  | enclosed hopening _ hclosing ih =>
    intro others hsame
    rw [List.cons_append, List.map_cons, List.map_append, List.map_singleton] at hsame
    obtain ⟨opening, others, rfl, hfirst, hsame⟩ := List.map_eq_cons_iff.mp hsame
    obtain ⟨inner, last, rfl, hinner, hlast⟩ := List.map_eq_append_iff.mp hsame
    obtain ⟨closing, rfl, hclose⟩ := List.map_eq_singleton_iff.mp hlast
    exact .enclosed (hfirst.trans hopening) (ih inner hinner) (hclose.trans hclosing)
  | negated htoken _ ih =>
    intro others hsame
    obtain ⟨minus, others, rfl, hfirst, hsame⟩ := List.map_eq_cons_iff.mp hsame
    exact .negated (hfirst.trans htoken) (ih others hsame)
  | binary _ htoken _ ihleft ihright =>
    intro others hsame
    rw [List.map_append, List.map_cons] at hsame
    obtain ⟨before, others, rfl, hbefore, hsame⟩ := List.map_eq_append_iff.mp hsame
    obtain ⟨mark, behind, rfl, hmark, hbehind⟩ := List.map_eq_cons_iff.mp hsame
    exact .binary (ihleft before hbefore) (hmark.trans htoken) (ihright behind hbehind)

/-! ### Rows of operands -/

/-- Operators of a level with an operand behind each, applied from the left to what stands before
them. -/
inductive Row (level : Nat) : Expression → List Token → Expression → Prop
  /-- The end of the row. -/
  | nil {expression : Expression} : Row level expression [] expression
  /-- One operator with its operand. -/
  | cons {operator : Operator} {token : Token} {operand others : List Token}
      {left right expression : Expression} (hlevel : operator.level = level)
      (htoken : token.lexeme = .mark operator.mark) (hright : Derives (level + 1) operand right)
      (hrest : Row level (.binary operator left right) others expression) :
      Row level left (token :: operand ++ others) expression

/-- An operator of a level stands behind what has the level and before what binds tighter. -/
theorem Derives.operation {behind : List Token} (hleft : Derives level before left)
    (hlevel : operator.level = level) (htoken : token.lexeme = .mark operator.mark)
    (hright : Derives (level + 1) behind right) :
    Derives level (before ++ token :: behind) (.binary operator left right) := by
  subst hlevel
  exact .binary hleft htoken hright

namespace Row

/-- One more operand at the end of a row. -/
theorem concat {behind : List Token} (h : Row level expression tokens left)
    (hlevel : operator.level = level) (htoken : token.lexeme = .mark operator.mark)
    (hright : Derives (level + 1) behind right) :
    Row level expression (tokens ++ token :: behind) (.binary operator left right) := by
  induction h with
  | @nil expression =>
    have hlast := @Row.cons level _ _ _ _ expression _ _ hlevel htoken hright .nil
    rwa [List.append_nil] at hlast
  | cons hfirst hmark hoperand _ ih =>
    rw [List.append_assoc]
    exact .cons hfirst hmark hoperand ih

/-- A row behind an operand is an expression of its level. -/
theorem derives (h : Row level left tokens expression) (hleft : Derives level before left) :
    Derives level (before ++ tokens) expression := by
  induction h generalizing before with
  | nil => rwa [List.append_nil]
  | @cons operator token operand others _ _ _ hlevel htoken hright _ ih =>
    have hbinary := ih (hleft.operation hlevel htoken hright)
    rwa [List.append_assoc] at hbinary

end Row

/-- Sums and products are operands of the next level, joined by operators of their own level that
are applied from the left. -/
theorem derives_iff_row (hlevel : level < 2) : Derives level tokens expression ↔
    ∃ first others operand, tokens = first ++ others ∧ Derives (level + 1) first operand ∧
      Row level operand others expression := by
  constructor
  · intro h
    induction h with
    | lift _ h _ => exact ⟨_, [], _, (List.append_nil _).symm, h, .nil⟩
    | binary _ htoken hright ihleft _ =>
      obtain ⟨first, others, operand, rfl, hfirst, hrow⟩ := ihleft hlevel
      exact ⟨first, _, operand, List.append_assoc .., hfirst, hrow.concat rfl htoken hright⟩
    | _ => omega
  · rintro ⟨first, others, operand, rfl, hfirst, hrow⟩
    exact hrow.derives (.lift (by omega) hfirst)

/-! ### What is read is derived -/

theorem mark_of_sumOperator? (h : sumOperator? token = some operator) :
    operator.level = 0 ∧ token.lexeme = .mark operator.mark := by
  unfold sumOperator? at h
  split at h
  · next u hmark =>
    split at h
    · next hplus =>
      cases h
      exact ⟨rfl, hmark.trans (congrArg Lexeme.mark hplus)⟩
    · split at h
      · next hminus =>
        cases h
        exact ⟨rfl, hmark.trans (congrArg Lexeme.mark hminus)⟩
      · cases h
  · cases h

theorem mark_of_productOperator? (h : productOperator? token = some operator) :
    operator.level = 1 ∧ token.lexeme = .mark operator.mark := by
  unfold productOperator? at h
  split at h
  · next u hmark =>
    split at h
    · next htimes =>
      cases h
      exact ⟨rfl, hmark.trans (congrArg Lexeme.mark htimes)⟩
    · split at h
      · next hover =>
        cases h
        exact ⟨rfl, hmark.trans (congrArg Lexeme.mark hover)⟩
      · split at h
        · next hmodulo =>
          cases h
          exact ⟨rfl, hmark.trans (congrArg Lexeme.mark hmodulo)⟩
        · cases h
  · cases h

/-- The step behind a point is a name or an integer. -/
theorem derivesSteps_of_memberSegment {point member : Token} {segment : Segment}
    {steps : List Segment} (hpoint : point.lexeme = .mark '.')
    (h : memberSegment member = .ok segment) (hrest : DerivesSteps tokens steps) :
    DerivesSteps (point :: member :: tokens) (segment :: steps) := by
  unfold memberSegment at h
  split at h
  · next key hname =>
    cases h
    exact .member hpoint hname hrest
  · next x hnumber =>
    split at h
    · next hinteger =>
      cases h
      exact .place hpoint hnumber hinteger hrest
    · cases h
  · cases h

/-- The step in brackets is a quoted text or an integer. -/
theorem derivesSteps_of_bracketSegment {bracket member close : Token} {segment : Segment}
    {steps : List Segment} (hbracket : bracket.lexeme = .mark '[')
    (h : bracketSegment member = .ok segment) (hclose : close.lexeme = .mark ']')
    (hrest : DerivesSteps tokens steps) :
    DerivesSteps (bracket :: member :: close :: tokens) (segment :: steps) := by
  unfold bracketSegment at h
  split at h
  · next key hquoted =>
    cases h
    exact .quoted hbracket hquoted hclose hrest
  · next x hnumber =>
    split at h
    · next hinteger =>
      cases h
      exact .index hbracket hnumber hinteger hclose hrest
    · cases h
  · cases h

/-- The steps that are read are derived from the tokens that are taken. -/
theorem derivesSteps_of_segments {steps : List Segment} (h : segments tokens = .ok (steps, rest)) :
    ∃ used, tokens = used ++ rest ∧ DerivesSteps used steps := by
  fun_induction segments tokens generalizing steps rest with
  | case1 =>
    cases h
    exact ⟨[], rfl, .none⟩
  | case2 => cases h
  | case3 point hpoint member more ih =>
    obtain ⟨segment, hsegment, h⟩ := Except.parts_of_bind h
    obtain ⟨⟨others, after⟩, hothers, h⟩ := Except.parts_of_bind h
    cases h
    obtain ⟨used, rfl, hused⟩ := ih hothers
    exact ⟨point :: member :: used, rfl, derivesSteps_of_memberSegment hpoint hsegment hused⟩
  | case4 => cases h
  | case5 bracket hpoint hbracket member more ih =>
    obtain ⟨segment, hsegment, h⟩ := Except.parts_of_bind h
    cases more with
    | nil => cases h
    | cons close behind =>
      dsimp only at h
      split at h
      · next hclose =>
        obtain ⟨⟨others, after⟩, hothers, h⟩ := Except.parts_of_bind h
        cases h
        obtain ⟨used, rfl, hused⟩ := ih hothers
        exact ⟨bracket :: member :: close :: used, rfl,
          derivesSteps_of_bracketSegment hbracket hsegment hclose hused⟩
      · cases h
  | case6 token others hpoint hbracket =>
    cases h
    exact ⟨[], rfl, .none⟩

/-- The mark that has to come next is there. -/
theorem exists_of_expectMark {u : CodeUnit} (h : expectMark u tokens = .ok rest) :
    ∃ token, tokens = token :: rest ∧ token.lexeme = .mark u := by
  cases tokens with
  | nil => cases h
  | cons token others =>
    rw [expectMark] at h
    split at h
    · next hmark =>
      cases h
      exact ⟨token, rfl, hmark⟩
    · cases h

/-- The first of some tokens derive an expression at a level, and the others are left. -/
def Takes (level : Nat) (tokens : List Token) (expression : Expression) (rest : List Token) :
    Prop :=
  ∃ used, tokens = used ++ rest ∧ Derives level used expression

theorem Takes.length_lt (h : Takes level tokens expression rest) : rest.length < tokens.length := by
  obtain ⟨used, rfl, hused⟩ := h
  have hpos := hused.length_pos
  rw [List.length_append]
  omega

theorem Takes.lift (hlevel : level < 3) (h : Takes (level + 1) tokens expression rest) :
    Takes level tokens expression rest := by
  obtain ⟨used, hused, hderives⟩ := h
  exact ⟨used, hused, .lift hlevel hderives⟩

/-- What the parts of the reader read within a number of steps is derived from the tokens that they
take. Where a sum or a product goes on, what stands before it is derived already. -/
structure IsSound (fuel : Nat) : Prop where
  /-- Sums are derived. -/
  additive : ∀ {tokens expression rest}, additive fuel tokens = .ok (expression, rest) →
    Takes 0 tokens expression rest
  /-- Sums that go on are derived. -/
  additiveMore : ∀ {before left tokens expression rest}, Derives 0 before left →
    additiveMore fuel left tokens = .ok (expression, rest) →
      Takes 0 (before ++ tokens) expression rest
  /-- Products are derived. -/
  term : ∀ {tokens expression rest}, term fuel tokens = .ok (expression, rest) →
    Takes 1 tokens expression rest
  /-- Products that go on are derived. -/
  termMore : ∀ {before left tokens expression rest}, Derives 1 before left →
    termMore fuel left tokens = .ok (expression, rest) →
      Takes 1 (before ++ tokens) expression rest
  /-- Operands with signs are derived. -/
  unary : ∀ {tokens expression rest}, unary fuel tokens = .ok (expression, rest) →
    Takes 2 tokens expression rest
  /-- Operands are derived. -/
  primary : ∀ {token tokens expression rest}, primary fuel token tokens = .ok (expression, rest) →
    Takes 3 (token :: tokens) expression rest

namespace IsSound

variable {fuel : Nat}

/-- Without a step nothing is read. -/
theorem zero : IsSound 0 where
  additive h := by cases h
  additiveMore _ h := by cases h
  term h := by cases h
  termMore _ h := by cases h
  unary h := by cases h
  primary h := by cases h

theorem additive_succ (hsound : IsSound fuel)
    (h : Expression.additive (fuel + 1) tokens = .ok (expression, rest)) :
    Takes 0 tokens expression rest := by
  rw [Expression.additive] at h
  obtain ⟨⟨left, after⟩, hterm, hmore⟩ := Except.parts_of_bind h
  obtain ⟨used, rfl, hused⟩ := hsound.term hterm
  exact hsound.additiveMore (.lift (by omega) hused) hmore

theorem additiveMore_succ (hsound : IsSound fuel) (hleft : Derives 0 before left)
    (h : Expression.additiveMore (fuel + 1) left tokens = .ok (expression, rest)) :
    Takes 0 (before ++ tokens) expression rest := by
  cases tokens with
  | nil =>
    cases h
    exact ⟨before, rfl, hleft⟩
  | cons token others =>
    rw [Expression.additiveMore] at h
    cases hoperator : sumOperator? token with
    | none =>
      rw [hoperator] at h
      cases h
      exact ⟨before, rfl, hleft⟩
    | some operator =>
      rw [hoperator] at h
      obtain ⟨⟨right, after⟩, hterm, hmore⟩ := Except.parts_of_bind h
      obtain ⟨used, rfl, hused⟩ := hsound.term hterm
      obtain ⟨hlevel, hmark⟩ := mark_of_sumOperator? hoperator
      have htakes := hsound.additiveMore (hleft.operation hlevel hmark hused) hmore
      rwa [List.append_assoc] at htakes

theorem term_succ (hsound : IsSound fuel)
    (h : Expression.term (fuel + 1) tokens = .ok (expression, rest)) :
    Takes 1 tokens expression rest := by
  rw [Expression.term] at h
  obtain ⟨⟨left, after⟩, hunary, hmore⟩ := Except.parts_of_bind h
  obtain ⟨used, rfl, hused⟩ := hsound.unary hunary
  exact hsound.termMore (.lift (by omega) hused) hmore

theorem termMore_succ (hsound : IsSound fuel) (hleft : Derives 1 before left)
    (h : Expression.termMore (fuel + 1) left tokens = .ok (expression, rest)) :
    Takes 1 (before ++ tokens) expression rest := by
  cases tokens with
  | nil =>
    cases h
    exact ⟨before, rfl, hleft⟩
  | cons token others =>
    rw [Expression.termMore] at h
    cases hoperator : productOperator? token with
    | none =>
      rw [hoperator] at h
      cases h
      exact ⟨before, rfl, hleft⟩
    | some operator =>
      rw [hoperator] at h
      obtain ⟨⟨right, after⟩, hunary, hmore⟩ := Except.parts_of_bind h
      obtain ⟨used, rfl, hused⟩ := hsound.unary hunary
      obtain ⟨hlevel, hmark⟩ := mark_of_productOperator? hoperator
      have htakes := hsound.termMore (hleft.operation hlevel hmark hused) hmore
      rwa [List.append_assoc] at htakes

theorem unary_succ (hsound : IsSound fuel)
    (h : Expression.unary (fuel + 1) tokens = .ok (expression, rest)) :
    Takes 2 tokens expression rest := by
  cases tokens with
  | nil => cases h
  | cons token others =>
    rw [Expression.unary] at h
    split at h
    · next hminus =>
      obtain ⟨⟨operand, after⟩, hunary, h⟩ := Except.parts_of_bind h
      cases h
      obtain ⟨used, rfl, hused⟩ := hsound.unary hunary
      exact ⟨token :: used, rfl, .negated hminus hused⟩
    · exact (hsound.primary h).lift (by omega)

theorem primary_succ (hsound : IsSound fuel)
    (h : Expression.primary (fuel + 1) token tokens = .ok (expression, rest)) :
    Takes 3 (token :: tokens) expression rest := by
  rw [Expression.primary] at h
  split at h
  · next x hnumber =>
    cases h
    exact ⟨[token], rfl, .number hnumber⟩
  · next t hquoted =>
    cases h
    exact ⟨[token], rfl, .quoted hquoted⟩
  · next name hname =>
    split at h
    · next value hvalue =>
      cases h
      exact ⟨[token], rfl, .constant hname hvalue⟩
    · next hvalue =>
      obtain ⟨⟨steps, after⟩, hsegments, h⟩ := Except.parts_of_bind h
      cases h
      obtain ⟨used, rfl, hused⟩ := derivesSteps_of_segments hsegments
      exact ⟨token :: used, rfl, .path hname hvalue hused⟩
  · next u hmark =>
    split at h
    · next hopening =>
      obtain ⟨⟨inner, after⟩, hadditive, h⟩ := Except.parts_of_bind h
      obtain ⟨behind, hexpect, h⟩ := Except.parts_of_bind h
      cases h
      obtain ⟨used, rfl, hused⟩ := hsound.additive hadditive
      obtain ⟨closing, rfl, hclosing⟩ := exists_of_expectMark hexpect
      refine ⟨token :: used ++ [closing], ?_, .enclosed (hopening ▸ hmark) hused hclosing⟩
      simp only [List.cons_append, List.append_assoc, List.nil_append]
    · cases h

/-- What is read is derived, whatever the number of steps. -/
theorem all (fuel : Nat) : IsSound fuel := by
  induction fuel with
  | zero => exact zero
  | succ fuel hsound =>
    exact {
      additive := hsound.additive_succ
      additiveMore := hsound.additiveMore_succ
      term := hsound.term_succ
      termMore := hsound.termMore_succ
      unary := hsound.unary_succ
      primary := hsound.primary_succ }

end IsSound

/-- Tokens that are read are derived from the grammar. -/
theorem derives_of_ofTokens (h : ofTokens tokens = .ok expression) :
    Derives 0 tokens expression := by
  unfold ofTokens at h
  split at h
  · cases h
  · obtain ⟨⟨found, rest⟩, hadditive, hrest⟩ := Except.parts_of_bind h
    cases rest with
    | cons token others => cases hrest
    | nil =>
      cases hrest
      obtain ⟨used, rfl, hused⟩ := (IsSound.all _).additive hadditive
      rwa [List.append_nil]

/-! ### Bounds that make no difference -/

/-- The parts of the reader give the same within two numbers of steps, on tokens for which both
numbers are large enough. -/
structure Agrees (fuel other : Nat) : Prop where
  /-- Sums are read alike. -/
  additive : ∀ tokens, 4 * tokens.length + 3 ≤ fuel → 4 * tokens.length + 3 ≤ other →
    additive fuel tokens = additive other tokens
  /-- Sums go on alike. -/
  additiveMore : ∀ left tokens, 4 * tokens.length + 1 ≤ fuel → 4 * tokens.length + 1 ≤ other →
    additiveMore fuel left tokens = additiveMore other left tokens
  /-- Products are read alike. -/
  term : ∀ tokens, 4 * tokens.length + 2 ≤ fuel → 4 * tokens.length + 2 ≤ other →
    term fuel tokens = term other tokens
  /-- Products go on alike. -/
  termMore : ∀ left tokens, 4 * tokens.length + 1 ≤ fuel → 4 * tokens.length + 1 ≤ other →
    termMore fuel left tokens = termMore other left tokens
  /-- Operands with signs are read alike. -/
  unary : ∀ tokens, 4 * tokens.length + 1 ≤ fuel → 4 * tokens.length + 1 ≤ other →
    unary fuel tokens = unary other tokens
  /-- Operands are read alike. -/
  primary : ∀ token tokens, 4 * tokens.length + 4 ≤ fuel → 4 * tokens.length + 4 ≤ other →
    primary fuel token tokens = primary other token tokens

namespace Agrees

variable {fuel other : Nat}

theorem additive_succ (h : Agrees fuel other) (hfuel : 4 * tokens.length + 2 ≤ fuel)
    (hother : 4 * tokens.length + 2 ≤ other) :
    Expression.additive (fuel + 1) tokens = Expression.additive (other + 1) tokens := by
  rw [Expression.additive, Expression.additive, h.term tokens hfuel hother]
  cases hterm : Expression.term other tokens with
  | error flaw => rfl
  | ok pair =>
    obtain ⟨left, after⟩ := pair
    have hafter := ((IsSound.all other).term hterm).length_lt
    exact h.additiveMore left after (by omega) (by omega)

theorem additiveMore_succ (h : Agrees fuel other) (hfuel : 4 * tokens.length ≤ fuel)
    (hother : 4 * tokens.length ≤ other) : Expression.additiveMore (fuel + 1) left tokens =
      Expression.additiveMore (other + 1) left tokens := by
  cases tokens with
  | nil => rfl
  | cons token others =>
    rw [List.length_cons] at hfuel hother
    rw [Expression.additiveMore, Expression.additiveMore]
    cases sumOperator? token with
    | none => rfl
    | some operator =>
      dsimp only
      rw [h.term others (by omega) (by omega)]
      cases hterm : Expression.term other others with
      | error flaw => rfl
      | ok pair =>
        obtain ⟨right, after⟩ := pair
        have hafter := ((IsSound.all other).term hterm).length_lt
        exact h.additiveMore _ after (by omega) (by omega)

theorem term_succ (h : Agrees fuel other) (hfuel : 4 * tokens.length + 1 ≤ fuel)
    (hother : 4 * tokens.length + 1 ≤ other) :
    Expression.term (fuel + 1) tokens = Expression.term (other + 1) tokens := by
  rw [Expression.term, Expression.term, h.unary tokens hfuel hother]
  cases hunary : Expression.unary other tokens with
  | error flaw => rfl
  | ok pair =>
    obtain ⟨left, after⟩ := pair
    have hafter := ((IsSound.all other).unary hunary).length_lt
    exact h.termMore left after (by omega) (by omega)

theorem termMore_succ (h : Agrees fuel other) (hfuel : 4 * tokens.length ≤ fuel)
    (hother : 4 * tokens.length ≤ other) :
    Expression.termMore (fuel + 1) left tokens = Expression.termMore (other + 1) left tokens := by
  cases tokens with
  | nil => rfl
  | cons token others =>
    rw [List.length_cons] at hfuel hother
    rw [Expression.termMore, Expression.termMore]
    cases productOperator? token with
    | none => rfl
    | some operator =>
      dsimp only
      rw [h.unary others (by omega) (by omega)]
      cases hunary : Expression.unary other others with
      | error flaw => rfl
      | ok pair =>
        obtain ⟨right, after⟩ := pair
        have hafter := ((IsSound.all other).unary hunary).length_lt
        exact h.termMore _ after (by omega) (by omega)

theorem unary_succ (h : Agrees fuel other) (hfuel : 4 * tokens.length ≤ fuel)
    (hother : 4 * tokens.length ≤ other) :
    Expression.unary (fuel + 1) tokens = Expression.unary (other + 1) tokens := by
  cases tokens with
  | nil => rfl
  | cons token others =>
    rw [List.length_cons] at hfuel hother
    rw [Expression.unary, Expression.unary, h.unary others (by omega) (by omega),
      h.primary token others (by omega) (by omega)]

theorem primary_succ (h : Agrees fuel other) (hfuel : 4 * tokens.length + 3 ≤ fuel)
    (hother : 4 * tokens.length + 3 ≤ other) :
    Expression.primary (fuel + 1) token tokens = Expression.primary (other + 1) token tokens := by
  rw [Expression.primary, Expression.primary, h.additive tokens hfuel hother]

/-- Two bounds that leave four steps for every token make no difference. -/
theorem all (fuel other : Nat) : Agrees fuel other := by
  induction fuel generalizing other with
  | zero =>
    constructor
    all_goals
      intros
      omega
  | succ fuel ih =>
    cases other with
    | zero =>
      constructor
      all_goals
        intros
        omega
    | succ other =>
      have h := ih other
      exact {
        additive := fun tokens hfuel hother ↦ h.additive_succ (by omega) (by omega)
        additiveMore := fun left tokens hfuel hother ↦
          h.additiveMore_succ (by omega) (by omega)
        term := fun tokens hfuel hother ↦ h.term_succ (by omega) (by omega)
        termMore := fun left tokens hfuel hother ↦ h.termMore_succ (by omega) (by omega)
        unary := fun tokens hfuel hother ↦ h.unary_succ (by omega) (by omega)
        primary := fun token tokens hfuel hother ↦ h.primary_succ (by omega) (by omega) }

end Agrees

/-! ### The reader and the grammar -/

/-- The reader reads a list of tokens as an expression exactly when the grammar derives the
expression from the whole list, refuses every other list, and stops by itself: no larger bound on
its steps changes anything. The sums and the products of the grammar are rows of operands, and
their operators are applied from the left. -/
theorem ofTokens_recognises (tokens : List Token) :
    (∀ expression, ofTokens tokens = .ok expression ↔ Derives 0 tokens expression) ∧
    ((¬∃ expression, Derives 0 tokens expression) → ∃ flaw, ofTokens tokens = .error flaw) ∧
    (∀ fuel, 8 * tokens.length + 8 ≤ fuel →
      additive fuel tokens = additive (8 * tokens.length + 8) tokens) ∧
    ∀ level expression, level < 2 → (Derives level tokens expression ↔
      ∃ first others operand, tokens = first ++ others ∧ Derives (level + 1) first operand ∧
        Row level operand others expression) := by
  refine ⟨fun expression ↦ ⟨derives_of_ofTokens, ofTokens_of_derives⟩, fun hnone ↦ ?_,
    fun fuel hfuel ↦ ?_, fun level expression hlevel ↦ derives_iff_row hlevel⟩
  · cases hread : ofTokens tokens with
    | ok expression => exact absurd ⟨expression, derives_of_ofTokens hread⟩ hnone
    | error flaw => exact ⟨flaw, rfl⟩
  · exact (Agrees.all fuel _).additive tokens (by omega) (by omega)

end BrowserFlow.Expression
