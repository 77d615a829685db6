/-
Module: NixSyntax.Parser.StringLiteral
Purpose: Reading strings and the expressions interpolated in them.
Main exports: ExprParser, Parser.interpolated, Parser.stringLiteral
-/
import NixSyntax.Parser.Stream
import NixSyntax.Power
import NixSyntax.Tree

namespace NixSyntax

/-!
The rules take the parser for nested expressions as an argument.  None of them
refers to itself, so the depth of nesting is bounded in one place: where the
rules are tied together.
-/

/-- A parser for the expressions whose operators bind tighter than a power. -/
abbrev ExprParser := Power → Parser Expr

namespace Parser

/-- Reads an interpolated expression with its braces. -/
def interpolated (expr : ExprParser) : Parser Expr := do
  let _ ← expect .interpOpen
  let value ← expr .base
  let _ ← expect .interpClose
  return value

/-- Reads a part of a string up to the given closing quotes. -/
def stringPart (expr : ExprParser) (close : Kind) : Parser (Option StringPart) := do
  match ← currentKind with
  | .fragment => return some (.literal (← advance).value)
  | .interpOpen => return some (.interpolated (← interpolated expr))
  | kind =>
    if kind = close then return none else unexpected [close, .fragment, .interpOpen]

/-- Reads a string of either kind: whether it is indented, and its parts. -/
def stringLiteral (expr : ExprParser) : Parser (Bool × List StringPart) := do
  let opening ← expectOneOf [.quoteOpen, .indentOpen]
  let indented := opening.kind == .indentOpen
  let parts ← many (stringPart expr (if indented then .indentClose else .quoteClose))
  let _ ← advance
  return (indented, parts)

end Parser

end NixSyntax
