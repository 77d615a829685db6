/-
Module: NixSyntax.Proofs.Silent
Purpose: What is read off tokens without comments is a tree without comments.
Main exports: Document.plain_of_comments, Parser.document_silent
-/
import Mathlib.Algebra.Group.Nat.Defs
import NixSyntax.Proofs.Ledger
import NixSyntax.Proofs.Plain
import NixSyntax.Proofs.Yield

namespace NixSyntax

/-! ## Trees without comments -/

mutual

/-- Where there are no comments, nothing is erased. -/
theorem Expr.plain_of_comments : ∀ value : Expr, value.comments = [] → value.plain = value
  | ⟨clauses, form, ⟨before, after⟩⟩, silent => by
    simp only [Expr.comments, List.append_eq_nil_iff] at silent
    obtain ⟨⟨⟨rfl, inClauses⟩, inForm⟩, rfl⟩ := silent
    rw [Expr.plain, Clause.plain_of_comments clauses inClauses, Form.plain_of_comments form inForm]

theorem Clause.plain_of_comments :
    ∀ clauses : List Clause, Clause.comments clauses = [] → clauses.map Clause.plain = clauses
  | [], _ => rfl
  | ⟨kind, subject⟩ :: rest, silent => by
    simp only [Clause.comments, List.append_eq_nil_iff] at silent
    rw [List.map_cons, Clause.plain, Expr.plain_of_comments subject silent.1,
      Clause.plain_of_comments rest silent.2]

theorem Form.plain_of_comments : ∀ form : Form, form.comments = [] → form.plain = form
  | .int _, _ | .float _, _ | .bool _, _ | .null, _ | .path _, _ => by
    rw [Form.plain]
  | .name path, silent => by
    rw [Form.plain, Segment.plain_of_comments path silent]
  | .string indented parts, silent => by
    rw [Form.plain, StringPart.plain_of_comments parts silent]
  | .list elements inner, silent => by
    simp only [Form.comments, List.append_eq_nil_iff] at silent
    obtain ⟨inElements, rfl⟩ := silent
    rw [Form.plain, Expr.plain_of_allComments elements inElements]
  | .attrs recursive bindings inner, silent => by
    simp only [Form.comments, List.append_eq_nil_iff] at silent
    obtain ⟨inBindings, rfl⟩ := silent
    rw [Form.plain, Binding.plain_of_comments bindings inBindings]
  | .letIn bindings inner body, silent => by
    simp only [Form.comments, List.append_eq_nil_iff] at silent
    obtain ⟨⟨inBindings, rfl⟩, inBody⟩ := silent
    rw [Form.plain, Binding.plain_of_comments bindings inBindings,
      Expr.plain_of_comments body inBody]
  | .lambda param body, silent => by
    rw [Form.plain, Expr.plain_of_comments body silent]
  | .patternLambda params isOpen whole inner body, silent => by
    simp only [Form.comments, List.append_eq_nil_iff] at silent
    obtain ⟨⟨inParams, rfl⟩, inBody⟩ := silent
    rw [Form.plain, Param.plain_of_comments params inParams, Expr.plain_of_comments body inBody]
  | .apply function arguments, silent => by
    simp only [Form.comments, List.append_eq_nil_iff] at silent
    rw [Form.plain, Expr.plain_of_comments function silent.1,
      Expr.plain_of_allComments arguments silent.2]
  | .binary op left right, silent => by
    simp only [Form.comments, List.append_eq_nil_iff] at silent
    rw [Form.plain, Expr.plain_of_comments left silent.1, Expr.plain_of_comments right silent.2]
  | .hasAttr subject path, silent => by
    simp only [Form.comments, List.append_eq_nil_iff] at silent
    rw [Form.plain, Expr.plain_of_comments subject silent.1,
      Segment.plain_of_comments path silent.2]
  | .unary op operand, silent => by
    rw [Form.plain, Expr.plain_of_comments operand silent]
  | .select subject path, silent => by
    simp only [Form.comments, List.append_eq_nil_iff] at silent
    rw [Form.plain, Expr.plain_of_comments subject silent.1,
      Segment.plain_of_comments path silent.2]
  | .conditional condition yes no, silent => by
    simp only [Form.comments, List.append_eq_nil_iff] at silent
    rw [Form.plain, Expr.plain_of_comments condition silent.1.1,
      Expr.plain_of_comments yes silent.1.2, Expr.plain_of_comments no silent.2]
  | .importing target, silent => by
    rw [Form.plain, Expr.plain_of_comments target silent]

theorem Segment.plain_of_comments :
    ∀ path : List Segment, Segment.comments path = [] → path.map Segment.plain = path
  | [], _ => rfl
  | .name text :: rest, silent => by
    rw [List.map_cons, Segment.plain, Segment.plain_of_comments rest silent]
  | .computed value :: rest, silent => by
    simp only [Segment.comments, List.append_eq_nil_iff] at silent
    rw [List.map_cons, Segment.plain, Expr.plain_of_comments value silent.1,
      Segment.plain_of_comments rest silent.2]
  | .quoted parts :: rest, silent => by
    simp only [Segment.comments, List.append_eq_nil_iff] at silent
    rw [List.map_cons, Segment.plain, StringPart.plain_of_comments parts silent.1,
      Segment.plain_of_comments rest silent.2]

theorem StringPart.plain_of_comments :
    ∀ parts : List StringPart, StringPart.comments parts = [] → parts.map StringPart.plain = parts
  | [], _ => rfl
  | .literal text :: rest, silent => by
    rw [List.map_cons, StringPart.plain, StringPart.plain_of_comments rest silent]
  | .interpolated value :: rest, silent => by
    simp only [StringPart.comments, List.append_eq_nil_iff] at silent
    rw [List.map_cons, StringPart.plain, Expr.plain_of_comments value silent.1,
      StringPart.plain_of_comments rest silent.2]

theorem Binding.plain_of_comments :
    ∀ entries : List Binding, Binding.comments entries = [] → entries.map Binding.plain = entries
  | [], _ => rfl
  | .assign path value comments :: rest, silent => by
    simp only [Binding.comments, List.append_eq_nil_iff] at silent
    obtain ⟨⟨⟨rfl, inPath⟩, inValue⟩, inRest⟩ := silent
    rw [List.map_cons, Binding.plain, Segment.plain_of_comments path inPath,
      Expr.plain_of_comments value inValue, Binding.plain_of_comments rest inRest]
  | .inherit none names comments :: rest, silent => by
    simp only [Binding.comments, List.append_eq_nil_iff] at silent
    obtain ⟨⟨⟨rfl, -⟩, inNames⟩, inRest⟩ := silent
    rw [List.map_cons, Binding.plain, Segment.plain_of_comments names inNames,
      Binding.plain_of_comments rest inRest]
  | .inherit (some source) names comments :: rest, silent => by
    simp only [Binding.comments, Expr.optionComments, List.append_eq_nil_iff] at silent
    obtain ⟨⟨⟨rfl, inSource⟩, inNames⟩, inRest⟩ := silent
    rw [List.map_cons, Binding.plain, Expr.plain_of_comments source inSource,
      Segment.plain_of_comments names inNames, Binding.plain_of_comments rest inRest]

theorem Param.plain_of_comments :
    ∀ params : List Param, Param.comments params = [] → params.map Param.plain = params
  | [], _ => rfl
  | ⟨name, none, ⟨before, after⟩⟩ :: rest, silent => by
    simp only [Param.comments, List.append_eq_nil_iff] at silent
    obtain ⟨⟨⟨rfl, -⟩, rfl⟩, inRest⟩ := silent
    rw [List.map_cons, Param.plain, Param.plain_of_comments rest inRest]
  | ⟨name, some default, ⟨before, after⟩⟩ :: rest, silent => by
    simp only [Param.comments, Expr.optionComments, List.append_eq_nil_iff] at silent
    obtain ⟨⟨⟨rfl, inDefault⟩, rfl⟩, inRest⟩ := silent
    rw [List.map_cons, Param.plain, Expr.plain_of_comments default inDefault,
      Param.plain_of_comments rest inRest]

theorem Expr.plain_of_allComments :
    ∀ values : List Expr, Expr.allComments values = [] → values.map Expr.plain = values
  | [], _ => rfl
  | value :: rest, silent => by
    simp only [Expr.allComments, List.append_eq_nil_iff] at silent
    rw [List.map_cons, Expr.plain_of_comments value silent.1,
      Expr.plain_of_allComments rest silent.2]

end

theorem Document.plain_of_comments {document : Document} (silent : document.comments = []) :
    document.plain = document := by
  obtain ⟨before, value, after⟩ := document
  simp only [Document.comments, List.append_eq_nil_iff] at silent
  obtain ⟨⟨rfl, inValue⟩, rfl⟩ := silent
  rw [Document.plain, Expr.plain_of_comments value inValue]

/-! ## Streams without comments -/

theorem Stream.held_of_quiet {stream : Stream} (quiet : stream.Quiet) : stream.held = [] := by
  rw [Stream.held, quiet.unclaimed, List.append_eq_nil_iff]
  refine ⟨rfl, List.flatMap_eq_nil_iff.2 fun token member => ?_⟩
  obtain ⟨leading, trailing⟩ := quiet.tokens token member
  rw [Token.comments, leading, trailing]
  rfl

/-- The ledger that only counts how many comments there are. -/
def lengthLedger : Ledger Nat where
  count := List.length
  count_nil := rfl
  count_append _ _ := List.length_append
  Admits _ := True
  admits_advance _ := trivial
  admits_trim _ _ _ := trivial
  commutes _ _ := Nat.add_comm

theorem Parser.document_silent {fallback : FallbackLevel} {limit : Nat} {source target : Stream}
    {document : Document} (quiet : source.Quiet)
    (run : Parser.document (.standard fallback) limit source = .ok document target) :
    document.plain = document := by
  have pays : lengthLedger.Pays source document.comments target :=
    Ledger.document_pays quiet.unclaimed run
  have total : source.held.length = document.comments.length + target.held.length :=
    (pays trivial).2
  rw [Stream.held_of_quiet quiet, List.length_nil] at total
  apply Document.plain_of_comments
  exact List.eq_nil_of_length_eq_zero (by omega)

end NixSyntax
