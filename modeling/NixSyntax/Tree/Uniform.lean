/-
Module: NixSyntax.Tree.Uniform
Purpose: Trees in which every name is an attribute path and every operand an expression.
Main exports: Uniform.Tree, Expr.uniform
-/
import NixSyntax.Tree

namespace NixSyntax

/-!
The types of a tree leave no room for an `inherit` of `a.b`, for a parameter
that is computed or for an attribute test with anything but a bare path on its
right.  In the trees here all names are attribute paths, all strings may be
indented, and an attribute test is one more binary operator.  So what the types
say of a tree can be said of its image here, where it might have been false.
-/

/-! ## Trees -/

namespace Uniform

/-- The operators between two operands, the attribute test among them. -/
inductive Operator where
  | plain (op : BinaryOp)
  | hasAttr

mutual

/-- An expression with the clauses in front of it and the comments around it. -/
structure Tree where
  clauses : List Clause
  node : Node
  margin : Margin

/-- A clause `with subject;` or `assert subject;`. -/
structure Clause where
  kind : ClauseKind
  subject : Tree

/-- The kinds of a node. -/
inductive Node where
  | int (value : Int)
  | float (value : Binary64)
  | bool (value : Bool)
  | null
  | path (text : String)
  | identifier (name : List Part)
  | string (indented : Bool) (chunks : List Chunk)
  | list (elements : List Tree) (inner : List Comment)
  | attrs (recursive : Bool) (entries : List Entry) (inner : List Comment)
  | letIn (entries : List Entry) (inner : List Comment) (body : Tree)
  | lambda (param : List Part) (body : Tree)
  | patternLambda (params : List Param) (isOpen : Bool) (whole : Option (List Part))
      (inner : List Comment) (body : Tree)
  | apply (function : Tree) (arguments : List Tree)
  | binary (op : Operator) (left right : Tree)
  | unary (op : UnaryOp) (operand : Tree)
  | select (subject : Tree) (path : List Part)
  | conditional (condition yes no : Tree)
  | importing (target : Tree)

/-- One step of an attribute path. -/
inductive Part where
  | name (text : String)
  | computed (value : Tree)
  | string (indented : Bool) (chunks : List Chunk)

/-- A part of a string. -/
inductive Chunk where
  | literal (text : String)
  | interpolated (value : Tree)

/-- An entry of a set or of a `let`. -/
inductive Entry where
  | assign (path : List Part) (value : Tree) (comments : List Comment)
  | inherit (source : Option Tree) (names : List (List Part)) (comments : List Comment)

/-- A parameter of a pattern with its default. -/
structure Param where
  name : List Part
  default : Option Tree
  margin : Margin

end

/-- A node without clauses and comments. -/
def Tree.bare (node : Node) : Tree :=
  { clauses := [], node, margin := {} }

end Uniform

/-! ## The image of a tree -/

mutual

/-- The same tree with paths for names. -/
def Expr.uniform : Expr → Uniform.Tree
  | ⟨clauses, form, margin⟩ => ⟨Clause.uniform clauses, form.uniform, margin⟩

def Clause.uniform : List Clause → List Uniform.Clause
  | [] => []
  | ⟨kind, subject⟩ :: rest => ⟨kind, subject.uniform⟩ :: Clause.uniform rest

/-- The path of an attribute test becomes an operand. -/
def Form.uniform : Form → Uniform.Node
  | .int value => .int value
  | .float value => .float value
  | .bool value => .bool value
  | .null => .null
  | .path text => .path text
  | .name path => .identifier (Segment.uniform path)
  | .string indented parts => .string indented (StringPart.uniform parts)
  | .list elements inner => .list (Expr.allUniform elements) inner
  | .attrs recursive bindings inner => .attrs recursive (Binding.uniform bindings) inner
  | .letIn bindings inner body => .letIn (Binding.uniform bindings) inner body.uniform
  | .lambda param body => .lambda [.name param] body.uniform
  | .patternLambda params isOpen whole inner body =>
    .patternLambda (Param.uniform params) isOpen (whole.map fun name => [.name name]) inner
      body.uniform
  | .apply function arguments => .apply function.uniform (Expr.allUniform arguments)
  | .binary op left right => .binary (.plain op) left.uniform right.uniform
  | .hasAttr subject path =>
    .binary .hasAttr subject.uniform (.bare (.identifier (Segment.uniform path)))
  | .unary op operand => .unary op operand.uniform
  | .select subject path => .select subject.uniform (Segment.uniform path)
  | .conditional condition yes no => .conditional condition.uniform yes.uniform no.uniform
  | .importing target => .importing target.uniform

/-- A quoted segment stands in plain quotes. -/
def Segment.uniform : List Segment → List Uniform.Part
  | [] => []
  | .name text :: rest => .name text :: Segment.uniform rest
  | .computed value :: rest => .computed value.uniform :: Segment.uniform rest
  | .quoted parts :: rest => .string false (StringPart.uniform parts) :: Segment.uniform rest

def StringPart.uniform : List StringPart → List Uniform.Chunk
  | [] => []
  | .literal text :: rest => .literal text :: StringPart.uniform rest
  | .interpolated value :: rest => .interpolated value.uniform :: StringPart.uniform rest

/-- Each inherited name becomes a path of its own. -/
def Binding.uniform : List Binding → List Uniform.Entry
  | [] => []
  | .assign path value comments :: rest =>
    .assign (Segment.uniform path) value.uniform comments :: Binding.uniform rest
  | .inherit source names comments :: rest =>
    .inherit (Expr.optionUniform source) ((Segment.uniform names).map fun part => [part])
      comments :: Binding.uniform rest

def Param.uniform : List Param → List Uniform.Param
  | [] => []
  | ⟨name, default, margin⟩ :: rest =>
    ⟨[.name name], Expr.optionUniform default, margin⟩ :: Param.uniform rest

def Expr.allUniform : List Expr → List Uniform.Tree
  | [] => []
  | expr :: rest => expr.uniform :: Expr.allUniform rest

def Expr.optionUniform : Option Expr → Option Uniform.Tree
  | none => none
  | some expr => some expr.uniform

end

end NixSyntax
