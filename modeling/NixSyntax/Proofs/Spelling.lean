/-
Module: NixSyntax.Proofs.Spelling
Purpose: The ways to write a tree as tokens, read off the tree from front to back.
Main exports: Sign.isVisible, Expr.spellings
-/
import Mathlib.Computability.Language
import NixSyntax.Proofs.Run

namespace NixSyntax

/-!
A tree does not say where parentheses and commas stood, so these are left out
of a spelling.  What remains is fixed by the tree but for three things: how a
number is written, whether the attribute `or` is a name or a word, and on which
side of a pattern the name of the whole set stands.  A tree therefore has a
language of spellings.
-/

/-! ## Languages of signs -/

/-- Parentheses and commas leave no trace in a tree. -/
def Sign.isVisible (sign : Sign) : Bool :=
  sign.kind ∉ [Kind.parenOpen, .parenClose, .comma]

namespace Spelling

/-- One sign of those that are accepted. -/
def sign (accepts : Sign → Prop) : Language Sign :=
  {word | ∃ it, word = [it] ∧ accepts it}

/-- A sign of a kind, whatever it stands for. -/
def mark (kind : Kind) : Language Sign :=
  sign fun it => it.kind = kind

/-- A sign of a kind that stands for the given text. -/
def text (kind : Kind) (value : String) : Language Sign :=
  sign fun it => it.kind = kind ∧ it.value = value

/-- A sign of a kind that is read as the given number. -/
def number {α : Type} (kind : Kind) (read : String → Option α) (value : α) : Language Sign :=
  sign fun it => it.kind = kind ∧ read it.value = some value

/-- A name as a segment of a path, where the word `or` is a name too. -/
def segmentName (value : String) : Language Sign :=
  sign fun it => it.kind ∈ [Kind.identifier, .kwOr] ∧ it.value = value

/-- A mark that is there or not. -/
def markIf (kind : Kind) (present : Bool) : Language Sign :=
  if present then mark kind else 1

/-- The parts of a string between the quotes of its kind. -/
def inQuotes (indented : Bool) (parts : Language Sign) : Language Sign :=
  if indented then mark .indentOpen * parts * mark .indentClose
  else mark .quoteOpen * parts * mark .quoteClose

/-- A pattern with the name of the whole set, if it has one, on either side. -/
def withWhole (pattern : Language Sign) : Option String → Language Sign
  | none => pattern
  | some name =>
    text .identifier name * mark .atSign * pattern + pattern * mark .atSign * text .identifier name

end Spelling

/-- The kind of token that an operator is written with. -/
def BinaryOp.kind : BinaryOp → Kind
  | add => .plus
  | sub => .dash
  | mul => .star
  | div => .slash
  | and => .and
  | or => .or
  | implies => .implies
  | update => .update
  | concat => .concat
  | fallback => .kwOr
  | equal => .equal
  | notEqual => .notEqual
  | less => .less
  | lessEqual => .lessEqual
  | greater => .greater
  | greaterEqual => .greaterEqual

def UnaryOp.kind : UnaryOp → Kind
  | negate => .dash
  | not => .not

def ClauseKind.kind : ClauseKind → Kind
  | scope => .kwWith
  | assertion => .kwAssert

/-! ## Spellings of trees -/

open Spelling

mutual

/-- An expression is written behind its clauses. -/
def Expr.spellings : Expr → Language Sign
  | ⟨clauses, form, _⟩ => Clause.spellings clauses * form.spellings

def Clause.spellings : List Clause → Language Sign
  | [] => 1
  | ⟨kind, subject⟩ :: rest =>
    mark kind.kind * subject.spellings * mark .semicolon * Clause.spellings rest

def Form.spellings : Form → Language Sign
  | .int value => number .int readInteger value
  | .float value => number .float readFloat value
  | .bool value => mark (if value then .kwTrue else .kwFalse)
  | .null => mark .kwNull
  | .path value => text .path value
  | .name path => Segment.path path
  | .string indented parts => inQuotes indented (StringPart.spellings parts)
  | .list elements _ => mark .bracketOpen * Expr.allSpellings elements * mark .bracketClose
  | .attrs recursive bindings _ =>
    markIf .kwRec recursive * mark .curlyOpen * Binding.spellings bindings * mark .curlyClose
  | .letIn bindings _ body =>
    mark .kwLet * Binding.spellings bindings * mark .kwIn * body.spellings
  | .lambda param body => text .identifier param * mark .colon * body.spellings
  | .patternLambda params isOpen whole _ body =>
    withWhole
        (mark .curlyOpen * Param.spellings params * markIf .ellipsis isOpen * mark .curlyClose)
        whole *
      mark .colon * body.spellings
  | .apply function arguments => function.spellings * Expr.allSpellings arguments
  | .binary op left right => left.spellings * mark op.kind * right.spellings
  | .hasAttr subject path => subject.spellings * mark .question * Segment.path path
  | .unary op operand => mark op.kind * operand.spellings
  | .select subject path => subject.spellings * mark .dot * Segment.path path
  | .conditional condition yes no =>
    mark .kwIf * condition.spellings * mark .kwThen * yes.spellings * mark .kwElse * no.spellings
  | .importing target => mark .kwImport * target.spellings

def Segment.spellings : Segment → Language Sign
  | .name value => segmentName value
  | .computed value => mark .interpOpen * value.spellings * mark .interpClose
  | .quoted parts => inQuotes false (StringPart.spellings parts)

/-- The segments of a path are joined by dots. -/
def Segment.path : List Segment → Language Sign
  | [] => 1
  | first :: rest => first.spellings * Segment.dotted rest

/-- The segments of a path behind the first. -/
def Segment.dotted : List Segment → Language Sign
  | [] => 1
  | segment :: rest => mark .dot * segment.spellings * Segment.dotted rest

/-- The names of an `inherit` stand side by side. -/
def Segment.names : List Segment → Language Sign
  | [] => 1
  | segment :: rest => segment.spellings * Segment.names rest

def StringPart.spellings : List StringPart → Language Sign
  | [] => 1
  | .literal value :: rest => text .fragment value * StringPart.spellings rest
  | .interpolated value :: rest =>
    mark .interpOpen * value.spellings * mark .interpClose * StringPart.spellings rest

def Binding.spellings : List Binding → Language Sign
  | [] => 1
  | .assign path value _ :: rest =>
    Segment.path path * mark .assign * value.spellings * mark .semicolon * Binding.spellings rest
  | .inherit source names _ :: rest =>
    mark .kwInherit * Expr.optionSpellings source * Segment.names names * mark .semicolon *
      Binding.spellings rest

def Param.spellings : List Param → Language Sign
  | [] => 1
  | ⟨name, default, _⟩ :: rest =>
    text .identifier name * Param.defaultSpellings default * Param.spellings rest

def Param.defaultSpellings : Option Expr → Language Sign
  | none => 1
  | some value => mark .question * value.spellings

def Expr.allSpellings : List Expr → Language Sign
  | [] => 1
  | value :: rest => value.spellings * Expr.allSpellings rest

def Expr.optionSpellings : Option Expr → Language Sign
  | none => 1
  | some value => value.spellings

end

attribute [simp] Form.spellings Segment.spellings Segment.path Segment.dotted Segment.names
  StringPart.spellings Binding.spellings Param.spellings Param.defaultSpellings
  Expr.allSpellings Expr.optionSpellings

/-! ## Spellings do not show comments -/

@[simp] theorem Expr.spellings_bare (form : Form) :
    (Expr.bare form).spellings = form.spellings := by
  simp [Expr.bare, Expr.spellings, Clause.spellings]

@[simp] theorem Expr.spellings_addBefore (value : Expr) (comments : List Comment) :
    (value.addBefore comments).spellings = value.spellings := by
  cases value
  simp [Expr.addBefore, Expr.spellings]

@[simp] theorem Expr.spellings_addAfter (value : Expr) (comments : List Comment) :
    (value.addAfter comments).spellings = value.spellings := by
  cases value
  simp [Expr.addAfter, Expr.spellings]

/-- A clause is written in front of all that the expression already has. -/
@[simp] theorem Expr.spellings_addClause (value : Expr) (clause : Clause) :
    (value.addClause clause).spellings =
      mark clause.kind.kind * clause.subject.spellings * mark .semicolon * value.spellings := by
  cases value
  cases clause
  simp [Expr.addClause, Expr.spellings, Clause.spellings, mul_assoc]

end NixSyntax
