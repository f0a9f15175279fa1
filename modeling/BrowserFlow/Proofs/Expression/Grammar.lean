import BrowserFlow.Expression.Reading

/-!
The grammar of expressions over tokens. Sums bind least, then products, then
signs; sums and products associate to the left, and anything can stand in
parentheses (`Expression.Derives`). Every list of tokens that the grammar derives
is read as the expression that it derives (`Expression.ofTokens_of_derives`). The
reader takes a step for every token and no more than four levels for each, which
its bound leaves room for.
-/

set_option autoImplicit false
set_option relaxedAutoImplicit false

namespace BrowserFlow

/-- How tightly an operator binds: sums least, products more. -/
def Operator.level : Operator → Nat
  | .plus => 0
  | .minus => 0
  | .times => 1
  | .over => 1
  | .modulo => 1

namespace Expression

/-! ### The grammar -/

/-- The tokens of the steps of a path. -/
inductive DerivesSteps : List Token → List Segment → Prop
  /-- There are no more steps. -/
  | none : DerivesSteps [] []
  /-- A name behind a point. -/
  | member {point token : Token} {key : Text} {tokens : List Token} {steps : List Segment}
      (hpoint : point.lexeme = .mark '.') (htoken : token.lexeme = .name key)
      (hrest : DerivesSteps tokens steps) :
      DerivesSteps (point :: token :: tokens) (.name key :: steps)
  /-- An integer behind a point. -/
  | place {point token : Token} {x : Number} {tokens : List Token} {steps : List Segment}
      (hpoint : point.lexeme = .mark '.') (htoken : token.lexeme = .number x)
      (hinteger : x.isInteger = true) (hrest : DerivesSteps tokens steps) :
      DerivesSteps (point :: token :: tokens) (.index x :: steps)
  /-- A quoted text in brackets. -/
  | quoted {bracket token close : Token} {key : Text} {tokens : List Token} {steps : List Segment}
      (hbracket : bracket.lexeme = .mark '[') (htoken : token.lexeme = .quoted key)
      (hclose : close.lexeme = .mark ']') (hrest : DerivesSteps tokens steps) :
      DerivesSteps (bracket :: token :: close :: tokens) (.name key :: steps)
  /-- An integer in brackets. -/
  | index {bracket token close : Token} {x : Number} {tokens : List Token} {steps : List Segment}
      (hbracket : bracket.lexeme = .mark '[') (htoken : token.lexeme = .number x)
      (hinteger : x.isInteger = true) (hclose : close.lexeme = .mark ']')
      (hrest : DerivesSteps tokens steps) :
      DerivesSteps (bracket :: token :: close :: tokens) (.index x :: steps)

/-- The tokens of an expression at a level: 0 for sums, 1 for products, 2 for operands that may
have a sign, and 3 for operands. -/
inductive Derives : Nat → List Token → Expression → Prop
  /-- What binds tighter than a level stands at it too. -/
  | lift {level : Nat} {tokens : List Token} {expression : Expression} (hlevel : level < 3)
      (h : Derives (level + 1) tokens expression) : Derives level tokens expression
  /-- A number. -/
  | number {token : Token} {x : Number} (htoken : token.lexeme = .number x) :
      Derives 3 [token] (.literal (.number x))
  /-- A quoted text. -/
  | quoted {token : Token} {t : Text} (htoken : token.lexeme = .quoted t) :
      Derives 3 [token] (.literal (.text t))
  /-- A name that stands for a value. -/
  | constant {token : Token} {name : Text} {value : Value} (htoken : token.lexeme = .name name)
      (hvalue : literalOfName? name = some value) : Derives 3 [token] (.literal value)
  /-- Any other name and the steps from its variable on. -/
  | path {token : Token} {root : Text} {tokens : List Token} {steps : List Segment}
      (htoken : token.lexeme = .name root) (hvalue : literalOfName? root = none)
      (hsteps : DerivesSteps tokens steps) : Derives 3 (token :: tokens) (.path root steps)
  /-- An expression in parentheses. -/
  | enclosed {opening closing : Token} {tokens : List Token} {expression : Expression}
      (hopening : opening.lexeme = .mark '(') (h : Derives 0 tokens expression)
      (hclosing : closing.lexeme = .mark ')') :
      Derives 3 (opening :: tokens ++ [closing]) expression
  /-- An operand behind a minus sign. -/
  | negated {token : Token} {tokens : List Token} {operand : Expression}
      (htoken : token.lexeme = .mark '-') (h : Derives 2 tokens operand) :
      Derives 2 (token :: tokens) (.negate operand)
  /-- An operator; what is left of it may be such an operation again. -/
  | binary {operator : Operator} {token : Token} {before behind : List Token}
      {left right : Expression} (hleft : Derives operator.level before left)
      (htoken : token.lexeme = .mark operator.mark)
      (hright : Derives (operator.level + 1) behind right) :
      Derives operator.level (before ++ token :: behind) (.binary operator left right)

/-! ### What can follow -/

/-- Tokens that do not go on with the steps of a path. -/
def LeavesPath (rest : List Token) : Prop :=
  ∀ token ∈ rest.head?, token.lexeme ≠ .mark '.' ∧ token.lexeme ≠ .mark '['

/-- Tokens that go on neither with steps nor with a product. -/
def LeavesProduct (rest : List Token) : Prop :=
  LeavesPath rest ∧ ∀ token ∈ rest.head?, productOperator? token = none

/-- Tokens that go on with no part of an expression. -/
def LeavesSum (rest : List Token) : Prop :=
  LeavesProduct rest ∧ ∀ token ∈ rest.head?, sumOperator? token = none

theorem leavesSum_nil : LeavesSum [] := by simp [LeavesSum, LeavesProduct, LeavesPath]

theorem leavesSum_closing {token : Token} (rest : List Token) (h : token.lexeme = .mark ')') :
    LeavesSum (token :: rest) := by
  simp [LeavesSum, LeavesProduct, LeavesPath, sumOperator?, productOperator?, h]
  decide

section Operators

variable {operator : Operator} {token : Token} {rest : List Token}

theorem leavesPath_operator (htoken : token.lexeme = .mark operator.mark) :
    LeavesPath (token :: rest) := by
  simp only [LeavesPath, List.head?_cons, Option.mem_some, forall_eq', htoken]
  cases operator <;> decide

theorem sumOperator?_eq (hlevel : operator.level = 0)
    (htoken : token.lexeme = .mark operator.mark) : sumOperator? token = some operator := by
  simp only [sumOperator?, htoken]
  cases operator with
  | plus | minus => rfl
  | _ => cases hlevel

theorem productOperator?_eq (hlevel : operator.level = 1)
    (htoken : token.lexeme = .mark operator.mark) : productOperator? token = some operator := by
  simp only [productOperator?, htoken]
  cases operator with
  | plus | minus => cases hlevel
  | _ => rfl

theorem leavesProduct_operator (hlevel : operator.level = 0)
    (htoken : token.lexeme = .mark operator.mark) : LeavesProduct (token :: rest) := by
  refine ⟨leavesPath_operator htoken, ?_⟩
  simp only [List.head?_cons, Option.mem_some, forall_eq', productOperator?, htoken]
  cases operator with
  | plus | minus => decide
  | _ => cases hlevel

end Operators

/-! ### How the reader goes on -/

theorem additiveMore_of_leaves {fuel : Nat} {expression : Expression} {rest : List Token}
    (h : LeavesSum rest) : additiveMore (fuel + 1) expression rest = .ok (expression, rest) := by
  cases rest with
  | nil => rfl
  | cons token others =>
    have hnone : sumOperator? token = none := h.2 token rfl
    rw [additiveMore, hnone]

theorem termMore_of_leaves {fuel : Nat} {expression : Expression} {rest : List Token}
    (h : LeavesProduct rest) : termMore (fuel + 1) expression rest = .ok (expression, rest) := by
  cases rest with
  | nil => rfl
  | cons token others =>
    have hnone : productOperator? token = none := h.2 token rfl
    rw [termMore, hnone]

/-- The steps that the grammar derives are read, up to what follows the path. -/
theorem segments_of_derives {tokens : List Token} {steps : List Segment}
    (h : DerivesSteps tokens steps) {rest : List Token} (hrest : LeavesPath rest) :
    segments (tokens ++ rest) = .ok (steps, rest) := by
  induction h with
  | none =>
    cases rest with
    | nil => rfl
    | cons token others =>
      obtain ⟨hpoint, hbracket⟩ := hrest token rfl
      rw [List.nil_append, segments.eq_def]
      simp only [hpoint, hbracket, if_false]
  | member hpoint htoken _ ih =>
    simp only [List.cons_append, segments, hpoint, if_true, memberSegment, htoken, ih]
    rfl
  | place hpoint htoken hinteger _ ih =>
    simp only [List.cons_append, segments, hpoint, if_true, memberSegment, htoken, hinteger, ih]
    rfl
  | quoted hbracket htoken hclose _ ih =>
    have hne : (Lexeme.mark '[' : Lexeme) ≠ .mark '.' := by decide
    simp only [List.cons_append, segments, hbracket, hne, if_true, if_false, bracketSegment, htoken,
      hclose, ih]
    rfl
  | index hbracket htoken hinteger hclose _ ih =>
    have hne : (Lexeme.mark '[' : Lexeme) ≠ .mark '.' := by decide
    simp only [List.cons_append, segments, hbracket, hne, if_true, if_false, bracketSegment, htoken,
      hinteger, hclose, ih]
    rfl

/-- What the reader makes of tokens at a level, with the bound it needs. Sums and products are read
up to the point where the reader looks for one more operator, since they associate to the left. -/
def IsRead : Nat → List Token → Expression → Prop
  | 0, tokens, expression => ∀ rest fuel, LeavesProduct rest → 4 * tokens.length + 3 ≤ fuel →
      ∃ left, fuel ≤ left + tokens.length ∧
        additive fuel (tokens ++ rest) = additiveMore left expression rest
  | 1, tokens, expression => ∀ rest fuel, LeavesPath rest → 4 * tokens.length + 2 ≤ fuel →
      ∃ left, fuel ≤ left + tokens.length ∧
        term fuel (tokens ++ rest) = termMore left expression rest
  | 2, tokens, expression => ∀ rest fuel, LeavesPath rest → 4 * tokens.length + 1 ≤ fuel →
      unary fuel (tokens ++ rest) = .ok (expression, rest)
  | _, tokens, expression => ∃ token others, tokens = token :: others ∧
      token.lexeme ≠ .mark '-' ∧ ∀ rest fuel, LeavesPath rest → 4 * tokens.length ≤ fuel →
        primary fuel token (others ++ rest) = .ok (expression, rest)

section IsRead

variable {level : Nat} {tokens before behind : List Token} {token : Token}
  {expression left right : Expression} {operator : Operator}

theorem Derives.length_pos (h : Derives level tokens expression) : 0 < tokens.length := by
  induction h with
  | lift _ _ ih => exact ih
  | number _ | quoted _ | constant _ _ | path _ _ _ | enclosed _ _ _ | negated _ _ => simp
  | binary _ _ _ _ _ =>
    rw [List.length_append, List.length_cons]
    omega

theorem IsRead.sum_of_product (hlength : 0 < tokens.length) (h : IsRead 1 tokens expression) :
    IsRead 0 tokens expression := by
  intro rest fuel hrest hfuel
  obtain ⟨fuel, rfl⟩ : ∃ more, fuel = more + 1 := ⟨fuel - 1, by omega⟩
  obtain ⟨left, hleft, hterm⟩ := h rest fuel hrest.1 (by omega)
  obtain ⟨left, rfl⟩ : ∃ more, left = more + 1 := ⟨left - 1, by omega⟩
  refine ⟨fuel, by omega, ?_⟩
  rw [additive, hterm, termMore_of_leaves hrest]
  rfl

theorem IsRead.product_of_signed (hlength : 0 < tokens.length) (h : IsRead 2 tokens expression) :
    IsRead 1 tokens expression := by
  intro rest fuel hrest hfuel
  obtain ⟨fuel, rfl⟩ : ∃ more, fuel = more + 1 := ⟨fuel - 1, by omega⟩
  have hunary := h rest fuel hrest (by omega)
  refine ⟨fuel, by omega, ?_⟩
  rw [term, hunary]
  rfl

theorem IsRead.signed_of_operand (h : IsRead 3 tokens expression) :
    IsRead 2 tokens expression := by
  obtain ⟨token, others, rfl, hminus, hprimary⟩ := h
  intro rest fuel hrest hfuel
  obtain ⟨fuel, rfl⟩ : ∃ more, fuel = more + 1 := ⟨fuel - 1, by omega⟩
  have hread := hprimary rest fuel hrest (by omega)
  rw [List.cons_append, unary, if_neg hminus, hread]

theorem IsRead.binary_sum (hlevel : operator.level = 0)
    (htoken : token.lexeme = .mark operator.mark) (hleft : IsRead 0 before left)
    (hright : IsRead 1 behind right) :
    IsRead 0 (before ++ token :: behind) (.binary operator left right) := by
  intro rest fuel hrest hfuel
  simp only [List.length_append, List.length_cons] at hfuel ⊢
  obtain ⟨more, hmore, hbefore⟩ := hleft (token :: (behind ++ rest)) fuel
    (leavesProduct_operator hlevel htoken) (by omega)
  obtain ⟨more, rfl⟩ : ∃ less, more = less + 1 := ⟨more - 1, by omega⟩
  obtain ⟨last, hlast, hbehind⟩ := hright rest more hrest.1 (by omega)
  obtain ⟨last, rfl⟩ : ∃ less, last = less + 1 := ⟨last - 1, by omega⟩
  refine ⟨more, by omega, ?_⟩
  rw [List.append_assoc, List.cons_append, hbefore, additiveMore, sumOperator?_eq hlevel htoken]
  dsimp only
  rw [hbehind, termMore_of_leaves hrest]
  rfl

theorem IsRead.binary_product (hlevel : operator.level = 1)
    (htoken : token.lexeme = .mark operator.mark) (hleft : IsRead 1 before left)
    (hright : IsRead 2 behind right) :
    IsRead 1 (before ++ token :: behind) (.binary operator left right) := by
  intro rest fuel hrest hfuel
  simp only [List.length_append, List.length_cons] at hfuel ⊢
  obtain ⟨more, hmore, hbefore⟩ := hleft (token :: (behind ++ rest)) fuel
    (leavesPath_operator htoken) (by omega)
  obtain ⟨more, rfl⟩ : ∃ less, more = less + 1 := ⟨more - 1, by omega⟩
  have hbehind := hright rest more hrest (by omega)
  refine ⟨more, by omega, ?_⟩
  rw [List.append_assoc, List.cons_append, hbefore, termMore, productOperator?_eq hlevel htoken]
  dsimp only
  rw [hbehind]
  rfl

theorem IsRead.negated (htoken : token.lexeme = .mark '-') (h : IsRead 2 tokens expression) :
    IsRead 2 (token :: tokens) (.negate expression) := by
  intro rest fuel hrest hfuel
  rw [List.length_cons] at hfuel
  obtain ⟨fuel, rfl⟩ : ∃ more, fuel = more + 1 := ⟨fuel - 1, by omega⟩
  have hread := h rest fuel hrest (by omega)
  rw [List.cons_append, unary, if_pos htoken, hread]
  rfl

theorem IsRead.enclosed {opening closing : Token} (hopening : opening.lexeme = .mark '(')
    (hclosing : closing.lexeme = .mark ')') (h : IsRead 0 tokens expression) :
    IsRead 3 (opening :: tokens ++ [closing]) expression := by
  refine ⟨opening, tokens ++ [closing], rfl, ?_, ?_⟩
  · rw [hopening]
    decide
  · intro rest fuel _ hfuel
    simp only [List.cons_append, List.length_cons, List.length_append, List.length_nil] at hfuel
    obtain ⟨fuel, rfl⟩ : ∃ more, fuel = more + 1 := ⟨fuel - 1, by omega⟩
    have hleaves : LeavesSum (closing :: rest) := leavesSum_closing rest hclosing
    obtain ⟨left, hleft, hread⟩ := h (closing :: rest) fuel hleaves.1 (by omega)
    obtain ⟨left, rfl⟩ : ∃ more, left = more + 1 := ⟨left - 1, by omega⟩
    rw [additiveMore_of_leaves hleaves] at hread
    rw [List.append_assoc, List.singleton_append, primary, hopening]
    dsimp only
    rw [if_pos rfl, hread]
    simp only [bind, Except.bind, expectMark, hclosing, if_true]

end IsRead

/-- The reader reads what the grammar derives. -/
theorem Derives.isRead {level : Nat} {tokens : List Token} {expression : Expression}
    (h : Derives level tokens expression) : IsRead level tokens expression := by
  induction h with
  | @lift level tokens expression hlevel h ih =>
    obtain rfl | rfl | rfl : level = 0 ∨ level = 1 ∨ level = 2 := by omega
    · exact ih.sum_of_product h.length_pos
    · exact ih.product_of_signed h.length_pos
    · exact ih.signed_of_operand
  | @number token x htoken =>
    refine ⟨token, [], rfl, by simp [htoken], fun rest fuel _ hfuel ↦ ?_⟩
    obtain ⟨fuel, rfl⟩ : ∃ more, fuel = more + 1 := ⟨fuel - 1, by simp at hfuel; omega⟩
    rw [primary, htoken]
    rfl
  | @quoted token t htoken =>
    refine ⟨token, [], rfl, by simp [htoken], fun rest fuel _ hfuel ↦ ?_⟩
    obtain ⟨fuel, rfl⟩ : ∃ more, fuel = more + 1 := ⟨fuel - 1, by simp at hfuel; omega⟩
    rw [primary, htoken]
    rfl
  | @constant token name value htoken hvalue =>
    refine ⟨token, [], rfl, by simp [htoken], fun rest fuel _ hfuel ↦ ?_⟩
    obtain ⟨fuel, rfl⟩ : ∃ more, fuel = more + 1 := ⟨fuel - 1, by simp at hfuel; omega⟩
    rw [primary, htoken]
    simp only [hvalue, List.nil_append]
  | @path token root tokens steps htoken hvalue hsteps =>
    refine ⟨token, tokens, rfl, by simp [htoken], fun rest fuel hrest hfuel ↦ ?_⟩
    obtain ⟨fuel, rfl⟩ : ∃ more, fuel = more + 1 := ⟨fuel - 1, by simp at hfuel; omega⟩
    rw [primary, htoken]
    simp only [hvalue, segments_of_derives hsteps hrest]
    rfl
  | enclosed hopening _ hclosing ih => exact ih.enclosed hopening hclosing
  | negated htoken _ ih => exact ih.negated htoken
  | @binary operator token before behind left right _ htoken _ ihleft ihright =>
    cases operator with
    | plus => exact .binary_sum rfl htoken ihleft ihright
    | minus => exact .binary_sum rfl htoken ihleft ihright
    | _ => exact .binary_product rfl htoken ihleft ihright

/-- Tokens that the grammar derives are read as the expression that it derives. -/
theorem ofTokens_of_derives {tokens : List Token} {expression : Expression}
    (h : Derives 0 tokens expression) : ofTokens tokens = .ok expression := by
  have hlength := h.length_pos
  obtain ⟨left, hleft, hread⟩ := h.isRead [] (8 * tokens.length + 8) leavesSum_nil.1 (by omega)
  obtain ⟨left, rfl⟩ : ∃ more, left = more + 1 := ⟨left - 1, by omega⟩
  rw [additiveMore_of_leaves leavesSum_nil, List.append_nil] at hread
  rw [ofTokens, if_neg (by simp [List.ne_nil_of_length_pos hlength]), hread]
  rfl

end Expression

end BrowserFlow
