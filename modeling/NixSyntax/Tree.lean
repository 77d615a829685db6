/-
Module: NixSyntax.Tree
Purpose: The tree of an expression, with a place for every comment.
Main exports: Expr, Form, Clause, Segment, StringPart, Binding, Param, Document
-/
import NixSyntax.Comment
import NixSyntax.Number.Binary64

namespace NixSyntax

/-!
Every expression is wrapped the same way: the comments around it, the `with`
and `assert` clauses in front of it, and its form.  Comments that belong to no
single part of a list, a set or a parameter pattern are kept as its inner
comments, in front of the closing delimiter.

The types leave no room for trees that have no source text: a parameter is a
plain name, each name in an `inherit` is one segment, and an attribute test
holds a path rather than an expression.
-/

/-- The operators between two operands. -/
inductive BinaryOp where
  | add
  | sub
  | mul
  | div
  | and
  | or
  | implies
  | update
  | concat
  | fallback
  | equal
  | notEqual
  | less
  | lessEqual
  | greater
  | greaterEqual
deriving Repr, Inhabited, DecidableEq

/-- The operators in front of one operand. -/
inductive UnaryOp where
  | negate
  | not
deriving Repr, Inhabited, DecidableEq

/-- A clause either opens the scope of a set or asserts a condition. -/
inductive ClauseKind where
  | scope
  | assertion
deriving Repr, Inhabited, DecidableEq

mutual

/-- An expression with the clauses in front of it and the comments around it. -/
structure Expr where
  clauses : List Clause
  form : Form
  margin : Margin

/-- A clause `with subject;` or `assert subject;`. -/
structure Clause where
  kind : ClauseKind
  subject : Expr

/-- The forms of an expression. -/
inductive Form where
  | int (value : Int)
  | float (value : Binary64)
  | bool (value : Bool)
  | null
  | path (text : String)
  /-- A name or a dotted attribute path that starts with one. -/
  | name (path : List Segment)
  | string (indented : Bool) (parts : List StringPart)
  | list (elements : List Expr) (inner : List Comment)
  | attrs (recursive : Bool) (bindings : List Binding) (inner : List Comment)
  | letIn (bindings : List Binding) (inner : List Comment) (body : Expr)
  /-- A function of one named argument. -/
  | lambda (param : String) (body : Expr)
  /-- A function of a set that is taken apart.  An open pattern allows other
  attributes too, and `whole` names the set itself. -/
  | patternLambda (params : List Param) (isOpen : Bool) (whole : Option String)
      (inner : List Comment) (body : Expr)
  | apply (function : Expr) (arguments : List Expr)
  | binary (op : BinaryOp) (left right : Expr)
  /-- The test whether a set has the attribute that the path leads to. -/
  | hasAttr (subject : Expr) (path : List Segment)
  | unary (op : UnaryOp) (operand : Expr)
  /-- Selection from an expression that is not a name. -/
  | select (subject : Expr) (path : List Segment)
  | conditional (condition yes no : Expr)
  | importing (target : Expr)

/-- One step of an attribute path. -/
inductive Segment where
  | name (text : String)
  | computed (value : Expr)
  | quoted (parts : List StringPart)

/-- A part of a string: literal text with its escapes resolved, or an
interpolated expression. -/
inductive StringPart where
  | literal (text : String)
  | interpolated (value : Expr)

/-- An entry of a set or of a `let`. -/
inductive Binding where
  | assign (path : List Segment) (value : Expr) (comments : List Comment)
  | inherit (source : Option Expr) (names : List Segment) (comments : List Comment)

/-- A parameter of a pattern with its default. -/
structure Param where
  name : String
  default : Option Expr
  margin : Margin

end

/-- A form without clauses and comments. -/
def Expr.bare (form : Form) : Expr :=
  { clauses := [], form, margin := {} }

/-- Puts comments in front of those already before the expression. -/
def Expr.addBefore (expr : Expr) (comments : List Comment) : Expr :=
  { expr with margin := { expr.margin with before := comments ++ expr.margin.before } }

/-- Puts comments behind those already after the expression. -/
def Expr.addAfter (expr : Expr) (comments : List Comment) : Expr :=
  { expr with margin := { expr.margin with after := expr.margin.after ++ comments } }

/-- Puts a clause in front of those already before the expression. -/
def Expr.addClause (expr : Expr) (clause : Clause) : Expr :=
  { expr with clauses := clause :: expr.clauses }

/-- A parsed source text.  `before` holds the comments that a blank line sets
apart from the expression, and `after` those behind it. -/
structure Document where
  before : List Comment
  value : Expr
  after : List Comment

end NixSyntax
