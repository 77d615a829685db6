/-
Module: NixSyntax.Tree.Same
Purpose: When two trees count as the same: all parts agree, and floats as numbers.
Main exports: Expr.same, Document.same
-/
import NixSyntax.Tree

namespace NixSyntax

/-!
Two trees are the same if they have the same shape, the same texts and the
same comments, and if their floating-point literals are equal as numbers, so
that the two zeros do not differ.
-/

mutual

/-- Whether two expressions are the same. -/
def Expr.same : Expr → Expr → Bool
  | ⟨clauses, form, margin⟩, other =>
    Clause.same clauses other.clauses && form.same other.form && margin == other.margin

/-- Whether two lists of clauses are the same. -/
def Clause.same : List Clause → List Clause → Bool
  | [], others => others.isEmpty
  | ⟨kind, subject⟩ :: rest, others =>
    match others with
    | [] => false
    | other :: others => kind == other.kind && subject.same other.subject && Clause.same rest others

/-- Whether two forms are the same. -/
def Form.same : Form → Form → Bool
  | .int value, other => match other with
    | .int value' => value == value'
    | _ => false
  | .float value, other => match other with
    | .float value' => value.equal value'
    | _ => false
  | .bool value, other => match other with
    | .bool value' => value == value'
    | _ => false
  | .null, other => match other with
    | .null => true
    | _ => false
  | .path text, other => match other with
    | .path text' => text == text'
    | _ => false
  | .name path, other => match other with
    | .name path' => Segment.same path path'
    | _ => false
  | .string indented parts, other => match other with
    | .string indented' parts' => indented == indented' && StringPart.same parts parts'
    | _ => false
  | .list elements inner, other => match other with
    | .list elements' inner' => Expr.allSame elements elements' && inner == inner'
    | _ => false
  | .attrs recursive bindings inner, other => match other with
    | .attrs recursive' bindings' inner' =>
      recursive == recursive' && Binding.same bindings bindings' && inner == inner'
    | _ => false
  | .letIn bindings inner body, other => match other with
    | .letIn bindings' inner' body' =>
      Binding.same bindings bindings' && inner == inner' && body.same body'
    | _ => false
  | .lambda param body, other => match other with
    | .lambda param' body' => param == param' && body.same body'
    | _ => false
  | .patternLambda params isOpen whole inner body, other => match other with
    | .patternLambda params' isOpen' whole' inner' body' =>
      Param.same params params' && isOpen == isOpen' && whole == whole' && inner == inner' &&
        body.same body'
    | _ => false
  | .apply function arguments, other => match other with
    | .apply function' arguments' =>
      function.same function' && Expr.allSame arguments arguments'
    | _ => false
  | .binary op left right, other => match other with
    | .binary op' left' right' => op == op' && left.same left' && right.same right'
    | _ => false
  | .hasAttr subject path, other => match other with
    | .hasAttr subject' path' => subject.same subject' && Segment.same path path'
    | _ => false
  | .unary op operand, other => match other with
    | .unary op' operand' => op == op' && operand.same operand'
    | _ => false
  | .select subject path, other => match other with
    | .select subject' path' => subject.same subject' && Segment.same path path'
    | _ => false
  | .conditional condition yes no, other => match other with
    | .conditional condition' yes' no' =>
      condition.same condition' && yes.same yes' && no.same no'
    | _ => false
  | .importing target, other => match other with
    | .importing target' => target.same target'
    | _ => false

/-- Whether two attribute paths are the same. -/
def Segment.same : List Segment → List Segment → Bool
  | [], others => others.isEmpty
  | .name text :: rest, others => match others with
    | .name text' :: others => text == text' && Segment.same rest others
    | _ => false
  | .computed value :: rest, others => match others with
    | .computed value' :: others => value.same value' && Segment.same rest others
    | _ => false
  | .quoted parts :: rest, others => match others with
    | .quoted parts' :: others => StringPart.same parts parts' && Segment.same rest others
    | _ => false

/-- Whether the parts of two strings are the same. -/
def StringPart.same : List StringPart → List StringPart → Bool
  | [], others => others.isEmpty
  | .literal text :: rest, others => match others with
    | .literal text' :: others => text == text' && StringPart.same rest others
    | _ => false
  | .interpolated value :: rest, others => match others with
    | .interpolated value' :: others => value.same value' && StringPart.same rest others
    | _ => false

/-- Whether the entries of two sets are the same. -/
def Binding.same : List Binding → List Binding → Bool
  | [], others => others.isEmpty
  | .assign path value comments :: rest, others => match others with
    | .assign path' value' comments' :: others =>
      Segment.same path path' && value.same value' && comments == comments' &&
        Binding.same rest others
    | _ => false
  | .inherit source names comments :: rest, others => match others with
    | .inherit source' names' comments' :: others =>
      Expr.optionSame source source' && Segment.same names names' && comments == comments' &&
        Binding.same rest others
    | _ => false

/-- Whether the parameters of two patterns are the same. -/
def Param.same : List Param → List Param → Bool
  | [], others => others.isEmpty
  | ⟨name, default, margin⟩ :: rest, others => match others with
    | [] => false
    | other :: others =>
      name == other.name && Expr.optionSame default other.default && margin == other.margin &&
        Param.same rest others

/-- Whether two lists of expressions are the same. -/
def Expr.allSame : List Expr → List Expr → Bool
  | [], others => others.isEmpty
  | expr :: rest, others => match others with
    | [] => false
    | other :: others => expr.same other && Expr.allSame rest others

/-- Whether two expressions that may be missing are the same. -/
def Expr.optionSame : Option Expr → Option Expr → Bool
  | none, other => other.isNone
  | some expr, other => match other with
    | none => false
    | some other => expr.same other

end

/-- Whether two documents are the same. -/
def Document.same (document other : Document) : Bool :=
  document.before == other.before && document.value.same other.value &&
    document.after == other.after

end NixSyntax
