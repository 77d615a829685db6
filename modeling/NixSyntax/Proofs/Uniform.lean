/-
Module: NixSyntax.Proofs.Uniform
Purpose: What the types of a tree say, once names are paths and operands expressions.
Main exports: Uniform.Tree.Sound, Expr.uniform_injective, Expr.Every.uniform
-/
import NixSyntax.Proofs.WellFormed
import NixSyntax.Tree.Uniform

namespace NixSyntax

/-!
A tree whose nodes are well-formed has an image whose nodes are well-formed.
What the image asks for beyond that, one part for an inherited name and one name
for a parameter, is true by the way the image is made.
-/

namespace Uniform

/-! ## What is inside a tree -/

/-- The trees interpolated in a string. -/
def Chunk.inside : List Chunk → List Tree
  | [] => []
  | .literal _ :: rest => inside rest
  | .interpolated value :: rest => value :: inside rest

/-- The trees interpolated in an attribute path or in its strings. -/
def Part.inside : List Part → List Tree
  | [] => []
  | .name _ :: rest => inside rest
  | .computed value :: rest => value :: inside rest
  | .string _ chunks :: rest => Chunk.inside chunks ++ inside rest

/-- The trees in the paths and values of entries. -/
def Entry.inside : List Entry → List Tree
  | [] => []
  | .assign path value _ :: rest => Part.inside path ++ value :: inside rest
  | .inherit source names _ :: rest => source.toList ++ (Part.inside names.flatten ++ inside rest)

/-- The trees in the names of parameters, and their defaults. -/
def Param.inside : List Param → List Tree
  | [] => []
  | ⟨name, default, _⟩ :: rest => Part.inside name ++ (default.toList ++ inside rest)

/-- The trees directly inside a node, but for the right side of an attribute
test. -/
def Node.inside : Node → List Tree
  | .int _ => []
  | .float _ => []
  | .bool _ => []
  | .null => []
  | .path _ => []
  | .identifier name => Part.inside name
  | .string _ chunks => Chunk.inside chunks
  | .list elements _ => elements
  | .attrs _ entries _ => Entry.inside entries
  | .letIn entries _ body => Entry.inside entries ++ [body]
  | .lambda param body => Part.inside param ++ [body]
  | .patternLambda params _ whole _ body =>
    Param.inside params ++ (Part.inside (whole.getD []) ++ [body])
  | .apply function arguments => function :: arguments
  | .binary (.plain _) left right => [left, right]
  | .binary .hasAttr left _ => [left]
  | .unary _ operand => [operand]
  | .select subject parts => subject :: Part.inside parts
  | .conditional condition yes no => [condition, yes, no]
  | .importing target => [target]

/-- The right side of an attribute test. -/
def Node.tested : Node → Option Tree
  | .binary .hasAttr _ right => some right
  | _ => none

/-- The trees directly inside a tree, but for the right side of an attribute
test. -/
def Tree.inside (tree : Tree) : List Tree :=
  tree.clauses.map Clause.subject ++ tree.node.inside

/-! ## Well-formed nodes -/

def Chunk.IsLiteral : Chunk → Prop
  | .literal _ => True
  | .interpolated _ => False

/-- No literal text is empty or stands behind another one. -/
structure Chunk.Separate (chunks : List Chunk) : Prop where
  present : ∀ text, .literal text ∈ chunks → text ≠ ""
  apart : chunks.IsChain fun chunk next => chunk.IsLiteral → ¬ next.IsLiteral

/-- A string in an attribute path is not indented. -/
def Part.WellFormed : Part → Prop
  | .name _ => True
  | .computed _ => True
  | .string indented chunks => indented = false ∧ Chunk.Separate chunks

/-- An attribute path has a part. -/
structure Part.Path (parts : List Part) : Prop where
  present : parts ≠ []
  each : ∀ part ∈ parts, part.WellFormed

def Part.IsName : Part → Prop
  | .name _ => True
  | _ => False

/-- The path is exactly one name. -/
def Part.OneName (parts : List Part) : Prop :=
  ∃ text, parts = [.name text]

/-- At least one name is inherited, and each is exactly one part. -/
def Entry.WellFormed : Entry → Prop
  | .assign path _ _ => Part.Path path
  | .inherit _ names _ => names ≠ [] ∧ ∀ name ∈ names, Part.Path name ∧ name.length = 1

/-- A node without regard to what is inside it, but for the right side of an
attribute test, which is an identifier without clauses and comments. -/
def Node.WellFormed : Node → Prop
  | .int value => 0 ≤ value ∧ value ≤ 9223372036854775807
  | .identifier name => Part.Path name
  | .string _ chunks => Chunk.Separate chunks
  | .attrs _ entries _ => ∀ entry ∈ entries, entry.WellFormed
  | .letIn entries _ _ => ∀ entry ∈ entries, entry.WellFormed
  | .lambda param _ => Part.OneName param
  | .patternLambda params _ whole _ _ =>
    (∀ param ∈ params, Part.OneName param.name) ∧ ∀ name ∈ whole, Part.OneName name
  | .apply _ arguments => arguments ≠ []
  | .binary .hasAttr _ right => ∃ name, right = .bare (.identifier name)
  | .select _ parts => Part.Path parts
  | _ => True

/-- If the node is an identifier, it starts with a name. -/
def Node.StartsNamed : Node → Prop
  | .identifier name => ∀ first ∈ name.head?, first.IsName
  | _ => True

/-- Every node of a tree is well-formed.  An identifier starts with a name
unless it is what an attribute test looks for. -/
inductive Tree.Sound : (tested : Bool) → Tree → Prop where
  | node {tested : Bool} {tree : Tree} (here : tree.node.WellFormed)
      (starts : tested = false → tree.node.StartsNamed)
      (parts : ∀ part ∈ tree.inside, part.Sound false)
      (path : ∀ right ∈ tree.node.tested, right.Sound true) : Sound tested tree

end Uniform

/-! ## Nothing is lost -/

mutual

/-- No other tree has the same image. -/
theorem Expr.uniform_injective : (one other : Expr) → one.uniform = other.uniform → one = other
  | ⟨clauses, form, margin⟩, ⟨clauses', form', margin'⟩, same => by
      obtain ⟨sameClauses, sameForm, rfl⟩ := Uniform.Tree.mk.inj same
      rw [Clause.uniform_injective _ _ sameClauses, Form.uniform_injective _ _ sameForm]
termination_by structural one => one

theorem Clause.uniform_injective : (one other : List Clause) →
    Clause.uniform one = Clause.uniform other → one = other
  | [], [], _ => rfl
  | [], ⟨_, _⟩ :: _, same => nomatch same
  | ⟨kind, subject⟩ :: rest, ⟨kind', subject'⟩ :: rest', same => by
      obtain ⟨first, others⟩ := List.cons.inj same
      obtain ⟨rfl, sameSubject⟩ := Uniform.Clause.mk.inj first
      rw [Expr.uniform_injective _ _ sameSubject, Clause.uniform_injective _ _ others]
termination_by structural one => one

theorem Form.uniform_injective : (one other : Form) → one.uniform = other.uniform → one = other
  | .int value, other, same => by cases other <;> cases same; rfl
  | .float value, other, same => by cases other <;> cases same; rfl
  | .bool value, other, same => by cases other <;> cases same; rfl
  | .null, other, same => by cases other <;> cases same; rfl
  | .path value, other, same => by cases other <;> cases same; rfl
  | .name path, .name path', same => by
      rw [Segment.uniform_injective _ _ (Uniform.Node.identifier.inj same)]
  | .string indented parts, .string indented' parts', same => by
      obtain ⟨rfl, sameParts⟩ := Uniform.Node.string.inj same
      rw [StringPart.uniform_injective _ _ sameParts]
  | .list elements inner, .list elements' inner', same => by
      obtain ⟨sameElements, rfl⟩ := Uniform.Node.list.inj same
      rw [Expr.allUniform_injective _ _ sameElements]
  | .attrs recursive bindings inner, .attrs recursive' bindings' inner', same => by
      obtain ⟨rfl, sameBindings, rfl⟩ := Uniform.Node.attrs.inj same
      rw [Binding.uniform_injective _ _ sameBindings]
  | .letIn bindings inner body, .letIn bindings' inner' body', same => by
      obtain ⟨sameBindings, rfl, sameBody⟩ := Uniform.Node.letIn.inj same
      rw [Binding.uniform_injective _ _ sameBindings, Expr.uniform_injective _ _ sameBody]
  | .lambda param body, .lambda param' body', same => by
      obtain ⟨sameParam, sameBody⟩ := Uniform.Node.lambda.inj same
      cases sameParam
      rw [Expr.uniform_injective _ _ sameBody]
  | .patternLambda params isOpen whole inner body,
    .patternLambda params' isOpen' whole' inner' body', same => by
      obtain ⟨sameParams, rfl, sameWhole, rfl, sameBody⟩ := Uniform.Node.patternLambda.inj same
      have : whole = whole' := by
        refine Option.map_injective ?_ sameWhole
        intro name name' same
        cases same
        rfl
      rw [Param.uniform_injective _ _ sameParams, this, Expr.uniform_injective _ _ sameBody]
  | .apply function arguments, .apply function' arguments', same => by
      obtain ⟨sameFunction, sameArguments⟩ := Uniform.Node.apply.inj same
      rw [Expr.uniform_injective _ _ sameFunction, Expr.allUniform_injective _ _ sameArguments]
  | .binary op left right, .binary op' left' right', same => by
      obtain ⟨sameOp, sameLeft, sameRight⟩ := Uniform.Node.binary.inj same
      cases sameOp
      rw [Expr.uniform_injective _ _ sameLeft, Expr.uniform_injective _ _ sameRight]
  | .hasAttr subject path, .hasAttr subject' path', same => by
      obtain ⟨-, sameSubject, sameRight⟩ := Uniform.Node.binary.inj same
      obtain ⟨-, samePath, -⟩ := Uniform.Tree.mk.inj sameRight
      rw [Expr.uniform_injective _ _ sameSubject,
        Segment.uniform_injective _ _ (Uniform.Node.identifier.inj samePath)]
  | .unary op operand, .unary op' operand', same => by
      obtain ⟨rfl, sameOperand⟩ := Uniform.Node.unary.inj same
      rw [Expr.uniform_injective _ _ sameOperand]
  | .select subject path, .select subject' path', same => by
      obtain ⟨sameSubject, samePath⟩ := Uniform.Node.select.inj same
      rw [Expr.uniform_injective _ _ sameSubject, Segment.uniform_injective _ _ samePath]
  | .conditional condition yes no, .conditional condition' yes' no', same => by
      obtain ⟨sameCondition, sameYes, sameNo⟩ := Uniform.Node.conditional.inj same
      rw [Expr.uniform_injective _ _ sameCondition, Expr.uniform_injective _ _ sameYes,
        Expr.uniform_injective _ _ sameNo]
  | .importing target, .importing target', same => by
      rw [Expr.uniform_injective _ _ (Uniform.Node.importing.inj same)]
termination_by structural one => one

theorem Segment.uniform_injective : (one other : List Segment) →
    Segment.uniform one = Segment.uniform other → one = other
  | [], [], _ => rfl
  | [], first :: _, same => by cases first <;> cases same
  | .name text :: rest, .name text' :: rest', same => by
      obtain ⟨first, others⟩ := List.cons.inj same
      cases first
      rw [Segment.uniform_injective _ _ others]
  | .computed value :: rest, .computed value' :: rest', same => by
      obtain ⟨first, others⟩ := List.cons.inj same
      rw [Expr.uniform_injective _ _ (Uniform.Part.computed.inj first),
        Segment.uniform_injective _ _ others]
  | .quoted parts :: rest, .quoted parts' :: rest', same => by
      obtain ⟨first, others⟩ := List.cons.inj same
      rw [StringPart.uniform_injective _ _ (Uniform.Part.string.inj first).2,
        Segment.uniform_injective _ _ others]
termination_by structural one => one

theorem StringPart.uniform_injective : (one other : List StringPart) →
    StringPart.uniform one = StringPart.uniform other → one = other
  | [], [], _ => rfl
  | [], first :: _, same => by cases first <;> cases same
  | .literal text :: rest, .literal text' :: rest', same => by
      obtain ⟨first, others⟩ := List.cons.inj same
      cases first
      rw [StringPart.uniform_injective _ _ others]
  | .interpolated value :: rest, .interpolated value' :: rest', same => by
      obtain ⟨first, others⟩ := List.cons.inj same
      rw [Expr.uniform_injective _ _ (Uniform.Chunk.interpolated.inj first),
        StringPart.uniform_injective _ _ others]
termination_by structural one => one

theorem Binding.uniform_injective : (one other : List Binding) →
    Binding.uniform one = Binding.uniform other → one = other
  | [], [], _ => rfl
  | [], first :: _, same => by cases first <;> cases same
  | .assign path value comments :: rest, .assign path' value' comments' :: rest', same => by
      obtain ⟨first, others⟩ := List.cons.inj same
      obtain ⟨samePath, sameValue, rfl⟩ := Uniform.Entry.assign.inj first
      rw [Segment.uniform_injective _ _ samePath, Expr.uniform_injective _ _ sameValue,
        Binding.uniform_injective _ _ others]
  | .inherit source names comments :: rest, .inherit source' names' comments' :: rest', same => by
      obtain ⟨first, others⟩ := List.cons.inj same
      obtain ⟨sameSource, sameNames, rfl⟩ := Uniform.Entry.inherit.inj first
      have sameNames := List.map_injective_iff.2 List.singleton_injective sameNames
      rw [Expr.optionUniform_injective _ _ sameSource, Segment.uniform_injective _ _ sameNames,
        Binding.uniform_injective _ _ others]
termination_by structural one => one

theorem Param.uniform_injective : (one other : List Param) →
    Param.uniform one = Param.uniform other → one = other
  | [], [], _ => rfl
  | [], ⟨_, _, _⟩ :: _, same => nomatch same
  | ⟨name, default, margin⟩ :: rest, ⟨name', default', margin'⟩ :: rest', same => by
      obtain ⟨first, others⟩ := List.cons.inj same
      obtain ⟨sameName, sameDefault, rfl⟩ := Uniform.Param.mk.inj first
      cases sameName
      rw [Expr.optionUniform_injective _ _ sameDefault, Param.uniform_injective _ _ others]
termination_by structural one => one

theorem Expr.allUniform_injective : (one other : List Expr) →
    Expr.allUniform one = Expr.allUniform other → one = other
  | [], [], _ => rfl
  | expr :: rest, expr' :: rest', same => by
      obtain ⟨first, others⟩ := List.cons.inj same
      rw [Expr.uniform_injective _ _ first, Expr.allUniform_injective _ _ others]
termination_by structural one => one

theorem Expr.optionUniform_injective : (one other : Option Expr) →
    Expr.optionUniform one = Expr.optionUniform other → one = other
  | none, none, _ => rfl
  | some expr, some expr', same => by
      rw [Expr.uniform_injective _ _ (Option.some.inj same)]
termination_by structural one => one

end

/-! ## The image of a well-formed tree -/

section Image

open NixSyntax.Uniform

/-- The image of one part of a string. -/
def StringPart.chunk : StringPart → Chunk
  | .literal text => .literal text
  | .interpolated value => .interpolated value.uniform

/-- The image of one segment. -/
def Segment.part : Segment → Part
  | .name text => .name text
  | .computed value => .computed value.uniform
  | .quoted parts => .string false (StringPart.uniform parts)

theorem StringPart.uniform_eq (parts : List StringPart) :
    StringPart.uniform parts = parts.map chunk := by
  induction parts with
  | nil => rfl
  | cons part rest ih => cases part <;> simp [StringPart.uniform, chunk, ih]

theorem Segment.uniform_eq (segments : List Segment) :
    Segment.uniform segments = segments.map part := by
  induction segments with
  | nil => rfl
  | cons segment rest ih => cases segment <;> simp [Segment.uniform, part, ih]

theorem Expr.optionUniform_eq (value : Option Expr) :
    Expr.optionUniform value = value.map Expr.uniform := by
  cases value <;> rfl

theorem Expr.allUniform_eq (values : List Expr) :
    Expr.allUniform values = values.map Expr.uniform := by
  induction values with
  | nil => rfl
  | cons value rest ih => rw [allUniform, ih, List.map_cons]

/-! ### What is inside -/

theorem StringPart.inside_uniform (parts : List StringPart) :
    Chunk.inside (StringPart.uniform parts) = (StringPart.inside parts).map Expr.uniform := by
  induction parts with
  | nil => rfl
  | cons part rest ih => cases part <;> simp [StringPart.uniform, Chunk.inside, inside, ih]

theorem Segment.inside_uniform (segments : List Segment) :
    Part.inside (Segment.uniform segments) = (Segment.inside segments).map Expr.uniform := by
  induction segments with
  | nil => rfl
  | cons segment rest ih =>
      cases segment <;>
        simp [Segment.uniform, Part.inside, inside, StringPart.inside_uniform, ih]

theorem Binding.inside_uniform (entries : List Binding) :
    Entry.inside (Binding.uniform entries) = (Binding.inside entries).map Expr.uniform := by
  induction entries with
  | nil => rfl
  | cons entry rest ih =>
      cases entry with
      | assign path value comments =>
          simp [Binding.uniform, Entry.inside, inside, Segment.inside_uniform, ih]
      | inherit source names comments =>
          have parts : ((Segment.uniform names).map fun part => [part]).flatten =
              Segment.uniform names := by
            simp [← List.flatMap_def]
          simp [Binding.uniform, Entry.inside, inside, Segment.inside_uniform, parts,
            Expr.optionUniform_eq, Option.toList_map, ih]

theorem Param.inside_uniform (params : List Param) :
    Uniform.Param.inside (Param.uniform params) = (Param.inside params).map Expr.uniform := by
  induction params with
  | nil => rfl
  | cons param rest ih =>
      obtain ⟨name, default, margin⟩ := param
      simp [Param.uniform, Uniform.Param.inside, Part.inside, inside, Expr.optionUniform_eq,
        Option.toList_map, ih]

theorem Clause.subjects_uniform (clauses : List Clause) :
    (Clause.uniform clauses).map Uniform.Clause.subject =
      (clauses.map Clause.subject).map Expr.uniform := by
  induction clauses with
  | nil => rfl
  | cons clause rest ih =>
      obtain ⟨kind, subject⟩ := clause
      simp [Clause.uniform, ih]

/-- Inside the image of a form are images of what is inside the form. -/
theorem Form.inside_uniform (form : Form) :
    form.uniform.inside ⊆ form.inside.map Expr.uniform := by
  cases form with
  | patternLambda params isOpen whole inner body =>
      cases whole <;> simp [Form.uniform, Node.inside, inside, Part.inside, Param.inside_uniform]
  | _ =>
      simp [Form.uniform, Node.inside, inside, Part.inside, Segment.inside_uniform,
        StringPart.inside_uniform, Binding.inside_uniform, Expr.allUniform_eq]

theorem Expr.inside_uniform (value : Expr) :
    value.uniform.inside ⊆ value.inside.map Expr.uniform := by
  obtain ⟨clauses, form, margin⟩ := value
  intro part member
  rw [inside, List.map_append, ← Clause.subjects_uniform]
  rcases List.mem_append.1 member with subject | operand
  · exact List.mem_append_left _ subject
  · exact List.mem_append_right _ (form.inside_uniform operand)

/-! ### Well-formed forms -/

theorem StringPart.isLiteral_chunk {part : StringPart} : part.chunk.IsLiteral ↔ part.IsLiteral := by
  cases part <;> rfl

theorem StringPart.Separate.uniform {parts : List StringPart} (separate : Separate parts) :
    Chunk.Separate (StringPart.uniform parts) := by
  rw [StringPart.uniform_eq]
  refine ⟨?_, ?_⟩
  · intro text member
    obtain ⟨part, inside, same⟩ := List.mem_map.1 member
    cases part with
    | literal found =>
        cases same
        exact separate.present _ inside
    | interpolated value => cases same
  · simpa [List.isChain_map, StringPart.isLiteral_chunk] using separate.apart

theorem Segment.WellFormed.part {segment : Segment} (shaped : segment.WellFormed) :
    segment.part.WellFormed := by
  cases segment with
  | name text => trivial
  | computed value => trivial
  | quoted parts => exact ⟨rfl, StringPart.Separate.uniform shaped⟩

theorem Segment.Path.uniform {segments : List Segment} (path : Segment.Path segments) :
    Part.Path (Segment.uniform segments) := by
  rw [Segment.uniform_eq]
  exact ⟨mt List.map_eq_nil_iff.1 path.present,
    List.forall_mem_map.2 fun segment member => (path.each segment member).part⟩

theorem Binding.uniform_wellFormed {entries : List Binding}
    (each : ∀ entry ∈ entries, entry.WellFormed) :
    ∀ entry ∈ Binding.uniform entries, entry.WellFormed := by
  induction entries with
  | nil => exact List.forall_mem_nil _
  | cons entry rest ih =>
      obtain ⟨first, others⟩ := List.forall_mem_cons.1 each
      cases entry with
      | assign path value comments => exact List.forall_mem_cons.2 ⟨first.1.uniform, ih others⟩
      | inherit source names comments =>
          refine List.forall_mem_cons.2 ⟨⟨?_, ?_⟩, ih others⟩
          · exact mt List.map_eq_nil_iff.1 (Segment.Path.uniform first).present
          · refine List.forall_mem_map.2 fun part member => ⟨⟨List.cons_ne_nil part [], ?_⟩, rfl⟩
            exact List.forall_mem_singleton.2 ((Segment.Path.uniform first).each part member)

/-- A parameter is one name by the way its image is made. -/
theorem Param.uniform_oneName (params : List Param) :
    ∀ param ∈ Param.uniform params, Part.OneName param.name := by
  induction params with
  | nil => exact List.forall_mem_nil _
  | cons param rest ih =>
      obtain ⟨name, default, margin⟩ := param
      exact List.forall_mem_cons.2 ⟨⟨name, rfl⟩, ih⟩

theorem Form.WellFormed.uniform {form : Form} (shaped : form.WellFormed) :
    form.uniform.WellFormed := by
  cases form with
  | int value => exact shaped
  | name path => exact shaped.1.uniform
  | string indented parts => exact StringPart.Separate.uniform shaped
  | attrs recursive bindings inner => exact Binding.uniform_wellFormed shaped
  | letIn bindings inner body => exact Binding.uniform_wellFormed shaped
  | lambda param body => exact ⟨param, rfl⟩
  | patternLambda params isOpen whole inner body =>
      refine ⟨Param.uniform_oneName params, ?_⟩
      cases whole with
      | none => nofun
      | some name =>
          rintro _ ⟨⟩
          exact ⟨name, rfl⟩
  | apply function arguments =>
      show Expr.allUniform arguments ≠ []
      rw [Expr.allUniform_eq]
      exact mt List.map_eq_nil_iff.1 shaped
  | hasAttr subject path => exact ⟨_, rfl⟩
  | select subject path => exact Segment.Path.uniform shaped
  | _ => trivial

theorem Form.WellFormed.startsNamed {form : Form} (shaped : form.WellFormed) :
    form.uniform.StartsNamed := by
  cases form with
  | name path =>
      show ∀ first ∈ (Segment.uniform path).head?, first.IsName
      rw [Segment.uniform_eq, List.head?_map]
      intro first head
      obtain ⟨segment, isFirst, rfl⟩ := Option.mem_map.1 head
      have named := shaped.2 segment isFirst
      cases segment with
      | name text => trivial
      | computed value => exact named
      | quoted parts => exact named
  | _ => trivial

/-! ### Well-formed trees -/

/-- The image of a well-formed tree is sound.  The path of an attribute test is
a node of its own there, which may start with anything. -/
theorem Expr.Every.uniform {value : Expr} (every : value.Every Expr.WellFormed) :
    value.uniform.Sound false := by
  induction every with
  | @node value here parts ih =>
      have sound : ∀ part ∈ value.inside.map Expr.uniform, part.Sound false :=
        List.forall_mem_map.2 ih
      obtain ⟨clauses, form, margin⟩ := value
      have shaped : form.WellFormed := here
      refine .node shaped.uniform (fun _ => shaped.startsNamed)
        (fun part member => sound part (Expr.inside_uniform _ member)) ?_
      intro right isRight
      cases form with
      | hasAttr subject path =>
          cases isRight
          refine .node (Segment.Path.uniform shaped) nofun ?_ nofun
          intro part member
          apply sound
          rw [inside, List.map_append]
          refine List.mem_append_right _ (List.mem_cons_of_mem _ ?_)
          rwa [← Segment.inside_uniform]
      | _ => cases isRight

end Image

end NixSyntax
