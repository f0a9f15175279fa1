import BrowserFlow.Expression.Token

/-!
Expressions read from tokens. Sums and differences of products and quotients of
operands, both associating to the left; a minus sign before an operand; an
operand is a literal, a path or an expression in parentheses. The reader is
bounded by a number of steps that exceeds what the tokens can take, since every
round of a loop and every level of nesting uses up a token.
-/

set_option autoImplicit false
set_option relaxedAutoImplicit false

namespace BrowserFlow.Expression

/-- The sum operator that a token is. -/
def sumOperator? (token : Token) : Option Operator :=
  match token.lexeme with
  | .mark u => if u = '+' then some .plus else if u = '-' then some .minus else none
  | _ => none

/-- The product operator that a token is. -/
def productOperator? (token : Token) : Option Operator :=
  match token.lexeme with
  | .mark u =>
    if u = '*' then some .times
    else if u = '/' then some .over
    else if u = '%' then some .modulo
    else none
  | _ => none

/-- The tokens behind a mark that has to come next. -/
def expectMark (u : CodeUnit) : List Token → Except TemplateFlaw (List Token)
  | [] => .error .unexpectedEnd
  | token :: rest =>
    if token.lexeme = .mark u then .ok rest else .error (.expectedMark ⟨[u]⟩ token.position)

/-- The step that a token behind a point is. -/
def memberSegment (token : Token) : Except TemplateFlaw Segment :=
  match token.lexeme with
  | .name key => .ok (.name key)
  | .number x => if x.isInteger then .ok (.index x) else .error (.expectedName token.position)
  | _ => .error (.expectedName token.position)

/-- The step that a token in brackets is. -/
def bracketSegment (token : Token) : Except TemplateFlaw Segment :=
  match token.lexeme with
  | .quoted key => .ok (.name key)
  | .number x => if x.isInteger then .ok (.index x) else .error (.expectedIndex token.position)
  | _ => .error (.expectedIndex token.position)

/-- The steps of a path. -/
def segments : List Token → Except TemplateFlaw (List Segment × List Token)
  | [] => .ok ([], [])
  | token :: rest =>
    if token.lexeme = .mark '.' then
      match rest with
      | [] => .error .unexpectedEnd
      | member :: more => do
        let segment ← memberSegment member
        let (others, after) ← segments more
        .ok (segment :: others, after)
    else if token.lexeme = .mark '[' then
      match rest with
      | [] => .error .unexpectedEnd
      | member :: more => do
        let segment ← bracketSegment member
        match more with
        | [] => .error .unexpectedEnd
        | close :: behind =>
          if close.lexeme = .mark ']' then do
            let (others, after) ← segments behind
            .ok (segment :: others, after)
          else .error (.expectedMark "]" close.position)
    else .ok ([], token :: rest)

/-- The literal that a name stands for. -/
def literalOfName? (name : Text) : Option Value :=
  if name = "true" then some (.bool true)
  else if name = "false" then some (.bool false)
  else if name = "null" then some .null
  else none

mutual

/-- Sums and differences. -/
def additive : Nat → List Token → Except TemplateFlaw (Expression × List Token)
  | 0, _ => .error .unexpectedEnd
  | fuel + 1, tokens => do
    let (left, rest) ← term fuel tokens
    additiveMore fuel left rest

/-- Further summands behind those already read. -/
def additiveMore : Nat → Expression → List Token → Except TemplateFlaw (Expression × List Token)
  | 0, _, _ => .error .unexpectedEnd
  | _ + 1, left, [] => .ok (left, [])
  | fuel + 1, left, token :: rest =>
    match sumOperator? token with
    | none => .ok (left, token :: rest)
    | some operator => do
      let (right, after) ← term fuel rest
      additiveMore fuel (.binary operator left right) after

/-- Products and quotients. -/
def term : Nat → List Token → Except TemplateFlaw (Expression × List Token)
  | 0, _ => .error .unexpectedEnd
  | fuel + 1, tokens => do
    let (left, rest) ← unary fuel tokens
    termMore fuel left rest

/-- Further factors behind those already read. -/
def termMore : Nat → Expression → List Token → Except TemplateFlaw (Expression × List Token)
  | 0, _, _ => .error .unexpectedEnd
  | _ + 1, left, [] => .ok (left, [])
  | fuel + 1, left, token :: rest =>
    match productOperator? token with
    | none => .ok (left, token :: rest)
    | some operator => do
      let (right, after) ← unary fuel rest
      termMore fuel (.binary operator left right) after

/-- An operand, possibly behind minus signs. -/
def unary : Nat → List Token → Except TemplateFlaw (Expression × List Token)
  | 0, _ => .error .unexpectedEnd
  | _ + 1, [] => .error .unexpectedEnd
  | fuel + 1, token :: rest =>
    if token.lexeme = .mark '-' then do
      let (operand, after) ← unary fuel rest
      .ok (.negate operand, after)
    else primary fuel token rest

/-- An operand that begins with a token. -/
def primary : Nat → Token → List Token → Except TemplateFlaw (Expression × List Token)
  | 0, _, _ => .error .unexpectedEnd
  | fuel + 1, token, rest =>
    match token.lexeme with
    | .number x => .ok (.literal (.number x), rest)
    | .quoted t => .ok (.literal (.text t), rest)
    | .name name =>
      match literalOfName? name with
      | some value => .ok (.literal value, rest)
      | none => do
        let (steps, after) ← segments rest
        .ok (.path name steps, after)
    | .mark u =>
      if u = '(' then do
        let (inner, after) ← additive fuel rest
        let behind ← expectMark ')' after
        .ok (inner, behind)
      else .error (.unexpectedToken ⟨[u]⟩ token.position)

end

/-- The expression that a list of tokens is. -/
def ofTokens (tokens : List Token) : Except TemplateFlaw Expression :=
  if tokens.isEmpty then .error .emptyExpression
  else do
    let (expression, rest) ← additive (8 * tokens.length + 8) tokens
    match rest with
    | [] => .ok expression
    | token :: _ => .error (.unexpectedToken token.lexeme.shown token.position)

/-- The expression that a text is. -/
def read (source : Text) : Except TemplateFlaw Expression := do
  ofTokens (← Token.tokenize source)

end BrowserFlow.Expression
