/-
Module: NixSyntax.Parser.Rule
Purpose: Reading by the start rules and the join rules of a grammar.
Main exports: StartRule.parse, JoinRule.parse, BinaryOp.ofKind?
-/
import NixSyntax.Number.Decimal
import NixSyntax.Parser.Lambda

namespace NixSyntax

/-- The operator between two operands that a kind stands for. -/
def BinaryOp.ofKind? : Kind → Option BinaryOp
  | .plus => some .add
  | .dash => some .sub
  | .star => some .mul
  | .slash => some .div
  | .and => some .and
  | .or => some .or
  | .implies => some .implies
  | .update => some .update
  | .concat => some .concat
  | .kwOr => some .fallback
  | .equal => some .equal
  | .notEqual => some .notEqual
  | .less => some .less
  | .lessEqual => some .lessEqual
  | .greater => some .greater
  | .greaterEqual => some .greaterEqual
  | _ => none

/-- Whether equal operators group to the right.  Multiplication does and
division does not, although both bind equally tight. -/
def BinaryOp.groupsRight : BinaryOp → Bool
  | implies => true
  | update => true
  | concat => true
  | mul => true
  | _ => false

namespace Parser

/-! ### Start rules -/

/-- Reads the current token as a number.  The fault of a bad number lies at that
token. -/
def number {α : Type} (read : String → Option α) : Parser α := do
  let position := (← get).position
  let token ← advance
  match read token.value with
  | some value => return value
  | none => throw { cause := .badNumber token.raw, position }

/-- Reads a number, a path or a constant. -/
def literal : Parser Expr := do
  match ← currentKind with
  | .int => return .bare (.int (← number readInteger))
  | .float => return .bare (.float (← number readFloat))
  | .kwTrue =>
    let _ ← advance
    return .bare (.bool true)
  | .kwFalse =>
    let _ ← advance
    return .bare (.bool false)
  | .kwNull =>
    let _ ← advance
    return .bare .null
  | .path => return .bare (.path (← advance).value)
  | _ => unexpected Kind.expressionStart

/-- Reads a string. -/
def string (expr : ExprParser) : Parser Expr := do
  let (indented, parts) ← stringLiteral expr
  return .bare (.string indented parts)

/-- Reads an expression in parentheses.  The parentheses leave no trace. -/
def group (expr : ExprParser) : Parser Expr := do
  let _ ← advance
  let value ← expr .base
  let _ ← expect .parenClose
  return value

/-- Reads the next element of a list, up to the closing bracket. -/
def element (expr : ExprParser) : Parser (Option Expr) := do
  match ← currentKind with
  | .bracketClose => return none
  | .endOfInput => unexpected [.bracketClose]
  | _ => return some (← expr .application)

/-- Reads a list. -/
def list (expr : ExprParser) : Parser Expr := do
  let _ ← advance
  let elements ← many (element expr)
  let inner ← takeBefore
  let _ ← advance
  return .bare (.list elements inner)

/-- Reads an import. -/
def importing (expr : ExprParser) : Parser Expr := do
  let _ ← advance
  return .bare (.importing (← expr .application))

/-- Reads an operator and the operand behind it. -/
def unary (expr : ExprParser) : Parser Expr := do
  let operator ← advance
  if operator.kind = .not then return .bare (.unary .not (← expr .not))
  else return .bare (.unary .negate (← expr .unary))

/-- Reads a conditional. -/
def conditional (expr : ExprParser) : Parser Expr := do
  let _ ← advance
  let condition ← expr .base
  let _ ← expect .kwThen
  let yes ← expr .base
  let _ ← expect .kwElse
  let no ← expr .base
  return .bare (.conditional condition yes no)

/-- Reads a clause and the expression behind it, which takes the clause. -/
def clause (expr : ExprParser) : Parser Expr := do
  let word ← advance
  let subject ← expr .base
  let _ ← expect .semicolon
  let comments ← takeUnclaimed
  let kind : ClauseKind := if word.kind = .kwAssert then .assertion else .scope
  let body ← expr .base
  return body.addClause { kind, subject := subject.addAfter comments }

/-! ### Join rules -/

/-- Reads a binary operator of the given power and its right operand.  An
operator that compares must not be followed by another one of its power. -/
def binary (grammar : Grammar) (expr : ExprParser) (left : Expr) (power : Power) :
    Parser Expr := do
  match BinaryOp.ofKind? (← currentKind) with
  | none => unexpected []
  | some op =>
    let _ ← advance
    let right ← expr (if op.groupsRight then power.lower else power)
    if power.isNonAssociative ∧ grammar.power (← currentKind) = power then
      fail (.chained (← get).current.raw)
    else return .bare (.binary op left right)

/-- Reads an attribute test. -/
def hasAttr (expr : ExprParser) (left : Expr) : Parser Expr := do
  let _ ← advance
  return .bare (.hasAttr left (← attrPath expr))

/-- Reads a selection. -/
def select (expr : ExprParser) (left : Expr) : Parser Expr := do
  let _ ← advance
  return .bare (.select left (← attrPath expr))

/-- Reads the next argument, if one starts here. -/
def argument (expr : ExprParser) : Parser (Option Expr) := do
  if (← currentKind) ∈ Kind.argumentStart then return some (← expr .application)
  else return none

/-- Reads all arguments of a function. -/
def apply (expr : ExprParser) (left : Expr) : Parser Expr := do
  return .bare (.apply left (← many (argument expr)))

end Parser

/-- Reads an expression by a start rule, up to the first token that the rule
does not need. -/
def StartRule.parse (expr : ExprParser) : StartRule → Parser Expr
  | literal => Parser.literal
  | name => Parser.name expr
  | string => Parser.string expr
  | group => Parser.group expr
  | list => Parser.list expr
  | importing => Parser.importing expr
  | unary => Parser.unary expr
  | conditional => Parser.conditional expr
  | clause => Parser.clause expr
  | braces => Parser.braces expr
  | recursiveAttrs => Parser.recursiveAttrs expr
  | letIn => Parser.letIn expr
  | lambda => Parser.lambda expr

/-- Goes on with an expression by a join rule, given the power at which the rule
was found. -/
def JoinRule.parse (grammar : Grammar) (expr : ExprParser) (left : Expr) (power : Power) :
    JoinRule → Parser Expr
  | binary => Parser.binary grammar expr left power
  | hasAttr => Parser.hasAttr expr left
  | select => Parser.select expr left
  | apply => Parser.apply expr left

end NixSyntax
