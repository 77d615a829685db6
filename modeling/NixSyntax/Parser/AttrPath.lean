/-
Module: NixSyntax.Parser.AttrPath
Purpose: Reading dotted attribute paths.
Main exports: Parser.segment, Parser.attrPath
-/
import NixSyntax.Parser.StringLiteral

namespace NixSyntax

namespace Parser

/-- Reads one segment of an attribute path.  The word `or` counts as a name
here. -/
def segment (expr : ExprParser) : Parser Segment := do
  match ← currentKind with
  | .identifier | .kwOr => return .name (← advance).value
  | .interpOpen => return .computed (← interpolated expr)
  | .quoteOpen => return .quoted (← stringLiteral expr).2
  | _ => unexpected [.identifier, .interpOpen, .quoteOpen]

/-- Reads a dot and the segment behind it. -/
def dottedSegment (expr : ExprParser) : Parser (Option Segment) := do
  if ← skip .dot then return some (← segment expr) else return none

/-- Reads an attribute path. -/
def attrPath (expr : ExprParser) : Parser (List Segment) := do
  let first ← segment expr
  return first :: (← many (dottedSegment expr))

end Parser

end NixSyntax
