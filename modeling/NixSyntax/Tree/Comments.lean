/-
Module: NixSyntax.Tree.Comments
Purpose: All comments of a tree, in the order in which they were attached.
Main exports: Expr.comments, Document.comments
-/
import NixSyntax.Tree

namespace NixSyntax

mutual

/-- The comments of an expression: those before it, those of its clauses and of
its form, and those after it. -/
def Expr.comments : Expr → List Comment
  | ⟨clauses, form, margin⟩ =>
    margin.before ++ Clause.comments clauses ++ form.comments ++ margin.after

/-- The comments of clauses. -/
def Clause.comments : List Clause → List Comment
  | [] => []
  | ⟨_, subject⟩ :: rest => subject.comments ++ Clause.comments rest

/-- The comments inside a form. -/
def Form.comments : Form → List Comment
  | .int _ => []
  | .float _ => []
  | .bool _ => []
  | .null => []
  | .path _ => []
  | .name path => Segment.comments path
  | .string _ parts => StringPart.comments parts
  | .list elements inner => Expr.allComments elements ++ inner
  | .attrs _ bindings inner => Binding.comments bindings ++ inner
  | .letIn bindings inner body => Binding.comments bindings ++ inner ++ body.comments
  | .lambda _ body => body.comments
  | .patternLambda params _ _ inner body => Param.comments params ++ inner ++ body.comments
  | .apply function arguments => function.comments ++ Expr.allComments arguments
  | .binary _ left right => left.comments ++ right.comments
  | .hasAttr subject path => subject.comments ++ Segment.comments path
  | .unary _ operand => operand.comments
  | .select subject path => subject.comments ++ Segment.comments path
  | .conditional condition yes no => condition.comments ++ yes.comments ++ no.comments
  | .importing target => target.comments

/-- The comments inside an attribute path. -/
def Segment.comments : List Segment → List Comment
  | [] => []
  | .name _ :: rest => Segment.comments rest
  | .computed value :: rest => value.comments ++ Segment.comments rest
  | .quoted parts :: rest => StringPart.comments parts ++ Segment.comments rest

/-- The comments inside the interpolations of a string. -/
def StringPart.comments : List StringPart → List Comment
  | [] => []
  | .literal _ :: rest => StringPart.comments rest
  | .interpolated value :: rest => value.comments ++ StringPart.comments rest

/-- The comments of the entries of a set. -/
def Binding.comments : List Binding → List Comment
  | [] => []
  | .assign path value comments :: rest =>
    comments ++ Segment.comments path ++ value.comments ++ Binding.comments rest
  | .inherit source names comments :: rest =>
    comments ++ Expr.optionComments source ++ Segment.comments names ++ Binding.comments rest

/-- The comments of the parameters of a pattern. -/
def Param.comments : List Param → List Comment
  | [] => []
  | ⟨_, default, margin⟩ :: rest =>
    margin.before ++ Expr.optionComments default ++ margin.after ++ Param.comments rest

/-- The comments of several expressions. -/
def Expr.allComments : List Expr → List Comment
  | [] => []
  | expr :: rest => expr.comments ++ Expr.allComments rest

/-- The comments of an expression that may be missing. -/
def Expr.optionComments : Option Expr → List Comment
  | none => []
  | some expr => expr.comments

end

/-- All comments of a document. -/
def Document.comments (document : Document) : List Comment :=
  document.before ++ document.value.comments ++ document.after

end NixSyntax
