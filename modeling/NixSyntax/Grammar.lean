/-
Module: NixSyntax.Grammar
Purpose: Which rule reads an expression that starts, or goes on, at a kind of token.
Main exports: StartRule, JoinRule, Grammar, Grammar.standard, Grammar.power
-/
import NixSyntax.Options
import NixSyntax.Token.Kind

namespace NixSyntax

/-!
An expression is read in two steps: a start rule reads from its first token,
and while the next token binds tighter than the context, a join rule takes
what has been read as its left side.  Which rule applies depends on the kind
of that token alone.
-/

/-- The rules for an expression that starts at the current token. -/
inductive StartRule where
  /-- A number, a path, `true`, `false` or `null`. -/
  | literal
  /-- An attribute path, or a function whose argument is named. -/
  | name
  | string
  | group
  | list
  | importing
  /-- An operator in front of its operand. -/
  | unary
  | conditional
  /-- A `with` or `assert` clause and the expression behind it. -/
  | clause
  /-- A set, or a function that takes one apart. -/
  | braces
  | recursiveAttrs
  | letIn
  | lambda
deriving Repr, Inhabited, DecidableEq

/-- The rules for an expression that goes on at the current token. -/
inductive JoinRule where
  | binary
  | hasAttr
  | select
  | apply
deriving Repr, Inhabited, DecidableEq

/-- The rules by the kind of the current token.  A join rule comes with the
power of the operator. -/
structure Grammar where
  start : Kind → Option StartRule
  join : Kind → Option (Power × JoinRule)

namespace Kind

/-- The kinds that start an expression, in the order in which a message would
list them. -/
def expressionStart : List Kind :=
  [int, float, kwTrue, kwFalse, kwNull, path, identifier, quoteOpen, indentOpen, bracketOpen,
   curlyOpen, parenOpen, kwRec, kwLet, kwIf, kwWith, kwAssert, kwImport, dash, not]

/-- The kinds that start an argument of a function. -/
def argumentStart : List Kind :=
  [int, float, kwTrue, kwFalse, kwNull, path, identifier, quoteOpen, indentOpen, bracketOpen,
   curlyOpen, kwRec, parenOpen]

/-- The kinds that start an entry of a set. -/
def bindingStart : List Kind :=
  [identifier, kwInherit, interpOpen, quoteOpen]

end Kind

namespace Grammar

/-- The grammar without rules. -/
def empty : Grammar where
  start _ := none
  join _ := none

/-- The start rules of the language. -/
def standardStart : Kind → Option StartRule
  | .int | .float | .kwTrue | .kwFalse | .kwNull | .path => some .literal
  | .identifier => some .name
  | .quoteOpen | .indentOpen => some .string
  | .parenOpen => some .group
  | .bracketOpen => some .list
  | .kwImport => some .importing
  | .dash | .not => some .unary
  | .curlyOpen => some .braces
  | .kwRec => some .recursiveAttrs
  | .kwLet => some .letIn
  | .kwIf => some .conditional
  | .kwWith | .kwAssert => some .clause
  | _ => none

/-- The join rules of the language. -/
def standardJoin (fallback : FallbackLevel) : Kind → Option (Power × JoinRule)
  | .kwOr => some (fallback.power, .binary)
  | .implies => some (.implication, .binary)
  | .or => some (.logicalOr, .binary)
  | .and => some (.logicalAnd, .binary)
  | .equal | .notEqual => some (.equality, .binary)
  | .less | .lessEqual | .greater | .greaterEqual => some (.relational, .binary)
  | .update => some (.update, .binary)
  | .plus | .dash => some (.additive, .binary)
  | .star | .slash => some (.multiplicative, .binary)
  | .concat => some (.concat, .binary)
  | .question => some (.hasAttr, .hasAttr)
  | .dot => some (.select, .select)
  | kind => if kind ∈ Kind.argumentStart then some (.application, .apply) else none

/-- The grammar of the language. -/
def standard (fallback : FallbackLevel) : Grammar where
  start := standardStart
  join := standardJoin fallback

/-- The grammar with the start rule for one kind replaced. -/
def setStart (grammar : Grammar) (kind : Kind) (rule : StartRule) : Grammar :=
  { grammar with start := fun other => if other = kind then some rule else grammar.start other }

/-- The grammar with the join rule for one kind replaced. -/
def setJoin (grammar : Grammar) (kind : Kind) (power : Power) (rule : JoinRule) : Grammar :=
  { grammar with
    join := fun other => if other = kind then some (power, rule) else grammar.join other }

/-- The power of a kind, which is the base for a kind that is no operator. -/
def power (grammar : Grammar) (kind : Kind) : Power :=
  ((grammar.join kind).map Prod.fst).getD .base

end Grammar

end NixSyntax
