/-
Module: NixSyntax.Parser.Lambda
Purpose: Reading functions, and telling parameter patterns from sets.
Main exports: Pattern, Parser.pattern, Parser.lambda, Parser.startsPattern, Parser.braces
-/
import NixSyntax.Parser.Binding

namespace NixSyntax

/-- The parameters of a pattern, whether it is open, and its inner comments. -/
structure Pattern where
  params : List Param
  isOpen : Bool
  inner : List Comment

namespace Parser

/-- Reads the default of a parameter, if there is one. -/
def paramDefault (expr : ExprParser) : Parser (Option Expr) := do
  if ← skip .question then return some (← expr .base) else return none

/-- Reads a parameter with its default and its comma.  Only the last one can
lack the comma. -/
def param (expr : ExprParser) : Parser Param := do
  let before ← takeBefore
  let name ← expect .identifier
  let default ← paramDefault expr
  unless ← skip .comma do
    unless (← currentKind) = .curlyClose do
      unexpected [.comma, .curlyClose]
  return { name := name.value, default, margin := { before, after := ← takeUnclaimed } }

/-- Reads the next parameter, up to the ellipsis or the closing brace. -/
def nextParam (expr : ExprParser) : Parser (Option Param) := do
  match ← currentKind with
  | .curlyClose | .ellipsis => return none
  | .identifier => return some (← param expr)
  | _ => unexpected [.identifier, .ellipsis, .curlyClose]

/-- Reads a pattern in braces. -/
def pattern (expr : ExprParser) : Parser Pattern := do
  let _ ← expect .curlyOpen
  let params ← many (nextParam expr)
  let isOpen ← skip .ellipsis
  let inner ← takeBefore
  let _ ← expect .curlyClose
  return { params, isOpen, inner }

/-- Reads the name that stands with an at sign in front of a pattern. -/
def wholeBefore : Parser (Option String) := do
  if (← currentKind) = .identifier then
    let name ← advance
    let _ ← expect .atSign
    return some name.value
  else return none

/-- Reads the name that stands with an at sign behind a pattern.  There can be
only one name on the two sides together. -/
def wholeAfter (whole : Option String) : Parser (Option String) := do
  if (← currentKind) = .atSign then
    if whole.isSome then rejected "a parameter list takes only one alias"
    else
      let _ ← advance
      let name ← expectOr .identifier "expected a name for the parameter list after `@`"
      return some name.value
  else return whole

/-- Reads a function that takes a set apart. -/
def patternLambda (expr : ExprParser) : Parser Expr := do
  let whole ← wholeBefore
  let pattern ← pattern expr
  let whole ← wholeAfter whole
  let _ ← expect .colon
  return .bare (.patternLambda pattern.params pattern.isOpen whole pattern.inner (← expr .base))

/-- Reads a function of one named argument. -/
def namedLambda (expr : ExprParser) : Parser Expr := do
  let name ← advance
  let _ ← expect .colon
  return .bare (.lambda name.value (← expr .base))

/-- Reads a function. -/
def lambda (expr : ExprParser) : Parser Expr := do
  if (← currentKind) = .identifier ∧ (← peekKind 1) = .colon then namedLambda expr
  else patternLambda expr

/-- Reads an attribute path, or a function that starts with a name. -/
def name (expr : ExprParser) : Parser Expr := do
  match ← peekKind 1 with
  | .colon | .atSign => lambda expr
  | _ => return .bare (.name (← attrPath expr))

/-- Whether a token can follow the closing brace of a pattern. -/
def followsPattern : Kind → Bool
  | .colon => true
  | .atSign => true
  | _ => false

/-- Whether the braces at the current token hold parameters.  Three tokens
behind the brace are enough to tell. -/
def startsPattern (stream : Stream) : Bool :=
  match (stream.peek 1).kind with
  | .ellipsis => true
  | .curlyClose => followsPattern (stream.peek 2).kind
  | .identifier =>
    match (stream.peek 2).kind with
    | .comma | .question => true
    | .curlyClose => followsPattern (stream.peek 3).kind
    | _ => false
  | _ => false

/-- Reads what starts with a brace: a function or a set. -/
def braces (expr : ExprParser) : Parser Expr := do
  if startsPattern (← get) then lambda expr else attrs expr false

end Parser

end NixSyntax
