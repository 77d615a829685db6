/-
Module: NixSyntax.Proofs.Plain
Purpose: What is left of a tree and of a fault when comments and source texts are erased.
Main exports: Expr.plain, Document.plain, Cause.outline
-/
import NixSyntax.Fault
import NixSyntax.Tree

namespace NixSyntax

/-- The view that shows nothing. -/
def unseen {α : Type} (_ : α) : Unit :=
  ()

/-! ## Trees without comments -/

mutual

/-- The expression with every list of comments empty. -/
def Expr.plain : Expr → Expr
  | ⟨clauses, form, _⟩ => ⟨clauses.map Clause.plain, form.plain, {}⟩

def Clause.plain : Clause → Clause
  | ⟨kind, subject⟩ => ⟨kind, subject.plain⟩

def Form.plain : Form → Form
  | .int value => .int value
  | .float value => .float value
  | .bool value => .bool value
  | .null => .null
  | .path text => .path text
  | .name path => .name (path.map Segment.plain)
  | .string indented parts => .string indented (parts.map StringPart.plain)
  | .list elements _ => .list (elements.map Expr.plain) []
  | .attrs recursive bindings _ => .attrs recursive (bindings.map Binding.plain) []
  | .letIn bindings _ body => .letIn (bindings.map Binding.plain) [] body.plain
  | .lambda param body => .lambda param body.plain
  | .patternLambda params isOpen whole _ body =>
    .patternLambda (params.map Param.plain) isOpen whole [] body.plain
  | .apply function arguments => .apply function.plain (arguments.map Expr.plain)
  | .binary op left right => .binary op left.plain right.plain
  | .hasAttr subject path => .hasAttr subject.plain (path.map Segment.plain)
  | .unary op operand => .unary op operand.plain
  | .select subject path => .select subject.plain (path.map Segment.plain)
  | .conditional condition yes no => .conditional condition.plain yes.plain no.plain
  | .importing target => .importing target.plain

def Segment.plain : Segment → Segment
  | .name text => .name text
  | .computed value => .computed value.plain
  | .quoted parts => .quoted (parts.map StringPart.plain)

def StringPart.plain : StringPart → StringPart
  | .literal text => .literal text
  | .interpolated value => .interpolated value.plain

def Binding.plain : Binding → Binding
  | .assign path value _ => .assign (path.map Segment.plain) value.plain []
  | .inherit none names _ => .inherit none (names.map Segment.plain) []
  | .inherit (some source) names _ =>
    .inherit (some source.plain) (names.map Segment.plain) []

def Param.plain : Param → Param
  | ⟨name, none, _⟩ => ⟨name, none, {}⟩
  | ⟨name, some default, _⟩ => ⟨name, some default.plain, {}⟩

end

attribute [simp] Clause.plain Form.plain Segment.plain StringPart.plain

/-- The document with every list of comments empty. -/
def Document.plain (document : Document) : Document :=
  { before := [], value := document.value.plain, after := [] }

@[simp] theorem Expr.plain_bare (form : Form) : (Expr.bare form).plain = .bare form.plain := by
  simp [Expr.bare, Expr.plain]

@[simp] theorem Expr.plain_addBefore (value : Expr) (comments : List Comment) :
    (value.addBefore comments).plain = value.plain := by
  cases value
  simp [Expr.addBefore, Expr.plain]

@[simp] theorem Expr.plain_addAfter (value : Expr) (comments : List Comment) :
    (value.addAfter comments).plain = value.plain := by
  cases value
  simp [Expr.addAfter, Expr.plain]

@[simp] theorem Expr.plain_addClause (value : Expr) (clause : Clause) :
    (value.addClause clause).plain = value.plain.addClause clause.plain := by
  cases value
  simp [Expr.addClause, Expr.plain]

theorem Binding.plain_inherit (source : Option Expr) (names : List Segment)
    (comments : List Comment) :
    (Binding.inherit source names comments).plain =
      .inherit (source.map Expr.plain) (names.map Segment.plain) [] := by
  cases source <;> simp [Binding.plain]

theorem Param.plain_mk (name : String) (default : Option Expr) (margin : Margin) :
    (Param.mk name default margin).plain = ⟨name, default.map Expr.plain, {}⟩ := by
  cases default <;> simp [Param.plain]

/-! ## Faults without source texts -/

/-- The cause without the source text that it shows. -/
def Cause.outline : Cause → Cause
  | .unexpected expected found _ => .unexpected expected found ""
  | .rejected _ reason => .rejected "" reason
  | .chained _ => .chained ""
  | .badNumber _ => .badNumber ""
  | cause => cause

end NixSyntax
