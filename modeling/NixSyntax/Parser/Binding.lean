/-
Module: NixSyntax.Parser.Binding
Purpose: Reading the entries of sets and of `let`.
Main exports: Parser.bindings, Parser.attrs, Parser.recursiveAttrs, Parser.letIn
-/
import NixSyntax.Grammar
import NixSyntax.Parser.AttrPath

namespace NixSyntax

namespace Parser

/-- Reads an entry `path = value;`.  Comments behind the semicolon belong to the
value. -/
def assignment (expr : ExprParser) (comments : List Comment) : Parser Binding := do
  let path ← attrPath expr
  let _ ← expect .assign
  let value ← expr .base
  let _ ← expect .semicolon
  return .assign path (value.addAfter (← takeUnclaimed)) comments

/-- Reads the set in parentheses that names are inherited from, if there is
one. -/
def inheritSource (expr : ExprParser) : Parser (Option Expr) := do
  if ← skip .parenOpen then
    let source ← expr .base
    let _ ← expect .parenClose
    return some source
  else return none

/-- Reads the next name to inherit, up to the semicolon. -/
def inheritedName (expr : ExprParser) : Parser (Option Segment) := do
  if (← currentKind) = .semicolon then return none else return some (← segment expr)

/-- Reads an entry `inherit (source) names;` with at least one name.  Comments
behind the semicolon belong to the entry. -/
def inheritance (expr : ExprParser) (comments : List Comment) : Parser Binding := do
  let _ ← expect .kwInherit
  let source ← inheritSource expr
  let first ← segment expr
  let others ← many (inheritedName expr)
  let _ ← advance
  return .inherit source (first :: others) (comments ++ (← takeUnclaimed))

/-- Reads the next entry, up to the closing token. -/
def binding (expr : ExprParser) (close : Kind) : Parser (Option Binding) := do
  let kind ← currentKind
  if kind = close then return none
  else if kind ∈ Kind.bindingStart then
    let comments ← takeBefore
    if kind = .kwInherit then return some (← inheritance expr comments)
    else return some (← assignment expr comments)
  else unexpected (close :: Kind.bindingStart)

/-- Reads entries up to the closing token, and takes the comments in front of
that token. -/
def bindings (expr : ExprParser) (close : Kind) : Parser (List Binding × List Comment) := do
  let entries ← many (binding expr close)
  return (entries, ← takeBefore)

/-- Reads a set in braces. -/
def attrs (expr : ExprParser) (recursive : Bool) : Parser Expr := do
  let _ ← expect .curlyOpen
  let (entries, inner) ← bindings expr .curlyClose
  let _ ← expect .curlyClose
  return .bare (.attrs recursive entries inner)

/-- Reads a set whose entries see each other. -/
def recursiveAttrs (expr : ExprParser) : Parser Expr := do
  let _ ← expect .kwRec
  attrs expr true

/-- Reads `let` with its entries and its body. -/
def letIn (expr : ExprParser) : Parser Expr := do
  let _ ← expect .kwLet
  if (← currentKind) = .curlyOpen then
    rejected "legacy `let \x7b ... \x7d` blocks are not supported"
  else
    let (entries, inner) ← bindings expr .kwIn
    let _ ← expect .kwIn
    return .bare (.letIn entries inner (← expr .base))

end Parser

end NixSyntax
