/-
Module: NixSyntax.Proofs.Inside
Purpose: The expressions directly inside an expression.
Main exports: Expr.inside, Expr.Every
-/
import NixSyntax.Tree.Comments

namespace NixSyntax

/-!
Expressions stand inside one another at many places: in operands and elements,
behind names, in interpolations.  Here they are listed one level deep, so that
a property of all nodes of a tree needs no case for each of these places.
-/

/-- The expressions interpolated in a string. -/
def StringPart.inside : List StringPart → List Expr
  | [] => []
  | .literal _ :: rest => inside rest
  | .interpolated value :: rest => value :: inside rest

/-- The expressions interpolated in an attribute path or in its strings. -/
def Segment.inside : List Segment → List Expr
  | [] => []
  | .name _ :: rest => inside rest
  | .computed value :: rest => value :: inside rest
  | .quoted parts :: rest => StringPart.inside parts ++ inside rest

/-- The expressions in the paths and values of entries. -/
def Binding.inside : List Binding → List Expr
  | [] => []
  | .assign path value _ :: rest => Segment.inside path ++ value :: inside rest
  | .inherit source names _ :: rest => source.toList ++ (Segment.inside names ++ inside rest)

/-- The defaults of parameters. -/
def Param.inside : List Param → List Expr
  | [] => []
  | ⟨_, default, _⟩ :: rest => default.toList ++ inside rest

theorem Segment.inside_cons (segment : Segment) (segments : List Segment) :
    inside (segment :: segments) = inside [segment] ++ inside segments := by
  cases segment <;> simp [inside]

theorem Binding.inside_cons (entry : Binding) (entries : List Binding) :
    inside (entry :: entries) = inside [entry] ++ inside entries := by
  cases entry <;> simp [inside]

theorem Param.inside_cons (param : Param) (params : List Param) :
    inside (param :: params) = inside [param] ++ inside params := by
  cases param
  simp [inside]

/-- The expressions directly inside a form. -/
def Form.inside : Form → List Expr
  | .int _ => []
  | .float _ => []
  | .bool _ => []
  | .null => []
  | .path _ => []
  | .name segments => Segment.inside segments
  | .string _ parts => StringPart.inside parts
  | .list elements _ => elements
  | .attrs _ bindings _ => Binding.inside bindings
  | .letIn bindings _ body => Binding.inside bindings ++ [body]
  | .lambda _ body => [body]
  | .patternLambda params _ _ _ body => Param.inside params ++ [body]
  | .apply function arguments => function :: arguments
  | .binary _ left right => [left, right]
  | .hasAttr subject segments => subject :: Segment.inside segments
  | .unary _ operand => [operand]
  | .select subject segments => subject :: Segment.inside segments
  | .conditional condition yes no => [condition, yes, no]
  | .importing target => [target]

/-- The expressions directly inside an expression: the subjects of its clauses
and what is inside its form. -/
def Expr.inside (value : Expr) : List Expr :=
  value.clauses.map Clause.subject ++ value.form.inside

/-- The property holds of every node of a tree. -/
inductive Expr.Every (holds : Expr → Prop) : Expr → Prop where
  | node {value : Expr} (here : holds value) (parts : ∀ part ∈ value.inside, Every holds part) :
      Every holds value

namespace Expr.Every

variable {holds : Expr → Prop} {value : Expr}

theorem here (every : Every holds value) : holds value := by
  cases every with
  | node here parts => exact here

theorem parts (every : Every holds value) : ∀ part ∈ value.inside, Every holds part := by
  cases every with
  | node here parts => exact parts

/-- An expression without clauses has inside what its form has. -/
theorem bare {form : Form} (here : holds (.bare form))
    (parts : ∀ part ∈ form.inside, part.Every holds) : (Expr.bare form).Every holds :=
  .node here parts

theorem and {other : Expr → Prop} (every : value.Every holds) (everyOther : value.Every other) :
    value.Every fun node => holds node ∧ other node := by
  induction every with
  | node here parts ih =>
      exact .node ⟨here, everyOther.here⟩ fun part inside =>
        ih part inside (everyOther.parts part inside)

/-- What follows at a node from the tree below it holds of every node. -/
theorem imp {other : Expr → Prop} (every : value.Every holds)
    (step : ∀ node, node.Every holds → other node) : value.Every other := by
  induction every with
  | node here parts ih => exact .node (step _ (.node here parts)) ih

end Expr.Every

end NixSyntax
