/-
Module: NixSyntax.Proofs.RoundTrip
Purpose: A tree without comments is read back from its printed text.
Main exports: Form.IsCore, Form.IsOrdinary, Form.reread, Expr.Every.rereads, parse_printed,
  parse_grouped
-/
import NixSyntax.Proofs.DepthLimit
import NixSyntax.Proofs.Forms
import NixSyntax.Proofs.Grouping
import NixSyntax.Proofs.Lexed
import NixSyntax.Proofs.Reread

namespace NixSyntax

open NixSyntax.Parser

/-!
The induction is on the tree.  What the printer puts in parentheses fills them,
and what it leaves without fits where it stands, so the text of each node is
read back if those of the expressions inside it are.
-/

/-! ## The core language -/

/-- The expression is written as a path. -/
def Expr.IsPath (value : Expr) : Prop :=
  value.clauses = [] ∧ ∃ text, value.form = .path text

/-- A form of the core language, without regard to the expressions inside it.
There are no fractions, no indented strings and no `!`, and no path behind a
dash. -/
def Form.IsCore : Form → Prop
  | .float _ => False
  | .unary .not _ => False
  | .unary .negate operand => ¬ operand.IsPath
  | .string indented parts => indented = false ∧ StringPart.Paired parts
  | .name segments => ∀ segment ∈ segments, segment.Paired
  | .select _ segments => ∀ segment ∈ segments, segment.Paired
  | .hasAttr _ segments => ∀ segment ∈ segments, segment.Paired
  | .attrs _ bindings _ => ∀ entry ∈ bindings, entry.Paired
  | .letIn bindings _ _ => ∀ entry ∈ bindings, entry.Paired
  | _ => True

def Expr.IsCore (value : Expr) : Prop :=
  value.form.IsCore

/-- A form of the core language, or `!` in front of an operand. -/
def Form.IsOrdinary : Form → Prop
  | .unary .not _ => True
  | form => form.IsCore

theorem Form.IsCore.isOrdinary {form : Form} (core : form.IsCore) : form.IsOrdinary := by
  unfold IsOrdinary
  split
  · trivial
  · exact core

theorem Form.fit_eq_path {form : Form} (same : form.fit = .path) : ∃ text, form = .path text := by
  fun_cases fit form <;> simp_all [fit]

theorem Expr.fit_ne_path {value : Expr} (other : ¬ value.IsPath) : value.fit ≠ .path := by
  intro same
  obtain ⟨bare, path⟩ := fit_form (by decide) same
  exact other ⟨bare, Form.fit_eq_path path⟩

/-! ## Forms -/

theorem patternLambda_text (params : List Param) (isOpen : Bool) (whole : Option String)
    (body : Expr) :
    (Form.patternLambda params isOpen whole [] body).text =
      parens ((match whole with
        | some name => name ++ " @ "
        | none => "") ++ Param.patternText isOpen params ++ ": " ++ body.text) := by
  have closing : " \x7d: " = " " ++ ("\x7d" ++ ": ") := rfl
  cases whole <;>
    simp only [Form.text, closing, Param.patternText, Expr.text, ownLines, List.isEmpty_nil,
      if_true, String.append_empty, String.append_assoc]

/-- A form is read back from its text, if what is inside it is. -/
theorem Form.reread {level : FallbackLevel} {form : Form} (wellFormed : form.WellFormed)
    (core : form.IsOrdinary) (keeps : form.KeepsGrouping level) (quiet : form.comments = [])
    (each : ∀ part ∈ form.inside, part.Reread level) :
    ∃ signs, Rereads level form.fit form.text (.bare form) signs := by
  cases form with
  | int value => exact ⟨_, int_reread wellFormed.1 wellFormed.2⟩
  | float value => exact core.elim
  | bool value =>
      cases value with
      | true =>
          exact ⟨_, constant_reread .kwTrue (by decide) fun _ same => by
            simp [Token.literal?, same]⟩
      | false =>
          exact ⟨_, constant_reread .kwFalse (by decide) fun _ same => by
            simp [Token.literal?, same]⟩
  | null =>
      exact ⟨_, constant_reread .kwNull (by decide) fun _ same => by simp [Token.literal?, same]⟩
  | path text => exact ⟨_, path_reread wellFormed⟩
  | name segments =>
      obtain ⟨path, named⟩ := wellFormed
      exact name_reread path.present named (.intro path.each core quiet each)
  | string indented parts =>
      obtain ⟨rfl, paired⟩ := core
      exact string_reread wellFormed paired quiet each
  | list elements inner =>
      simp only [Form.comments, List.append_eq_nil_iff] at quiet
      obtain ⟨quiet, rfl⟩ := quiet
      show ∃ signs, Rereads level .closed _ _ signs
      simpa [Form.text, ownLines] using list_reread quiet each keeps
  | attrs recursive bindings inner =>
      simp only [Form.comments, List.append_eq_nil_iff] at quiet
      obtain ⟨quiet, rfl⟩ := quiet
      show ∃ signs, Rereads level .closed _ _ signs
      simpa [Form.text, Binding.bracesText, ownLines] using
        attrs_reread recursive (.intro wellFormed core quiet each)
  | letIn bindings inner body =>
      simp only [Form.comments, List.append_eq_nil_iff] at quiet
      obtain ⟨⟨quiet, rfl⟩, quietBody⟩ := quiet
      rw [Form.inside, List.forall_mem_append, List.forall_mem_singleton] at each
      obtain ⟨signs, inner⟩ := letIn_fills (.intro wellFormed core quiet each.1) quietBody each.2
      show ∃ signs, Rereads level .closed _ _ signs
      exact ⟨_, by simpa [Form.text, Expr.text, ownLines] using inner.parens⟩
  | lambda param body =>
      obtain ⟨signs, inner⟩ := lambda_fills wellFormed quiet (each body List.mem_cons_self)
      exact ⟨_, inner.parens⟩
  | patternLambda params isOpen whole inner body =>
      simp only [Form.comments, List.append_eq_nil_iff] at quiet
      obtain ⟨⟨quiet, rfl⟩, quietBody⟩ := quiet
      rw [Form.inside, List.forall_mem_append, List.forall_mem_singleton] at each
      obtain ⟨identifiers, named⟩ := wellFormed
      rw [patternLambda_text]
      cases whole with
      | none =>
          obtain ⟨signs, inner⟩ :=
            patternLambda_fills isOpen ⟨identifiers, quiet, each.1⟩ quietBody each.2
          show ∃ signs, Rereads level .closed _ _ signs
          exact ⟨_, by simpa using inner.parens⟩
      | some name =>
          obtain ⟨signs, inner⟩ :=
            wholeLambda_fills (named name rfl) isOpen ⟨identifiers, quiet, each.1⟩ quietBody each.2
          exact ⟨_, inner.parens⟩
  | apply function arguments =>
      simp only [Form.comments, List.append_eq_nil_iff] at quiet
      rw [Form.inside, List.forall_mem_cons] at each
      obtain ⟨_, front⟩ := each.1.group quiet.1 function.startsWithNot
      have few := Expr.startsWithNot_continues keeps
      have starts : ∀ kind ∈ Kind.argumentStart, kind ∉ [Kind.dot, .colon, .atSign, .kwOr] := by
        decide
      have other := fun kind start => mt (@few kind) (starts kind start)
      obtain ⟨signs, inner⟩ := apply_fills front other wellFormed quiet.2 each.2
      exact ⟨_, inner.parens⟩
  | binary op left right =>
      simp only [Form.comments, List.append_eq_nil_iff] at quiet
      obtain ⟨_, front⟩ := (each left List.mem_cons_self).group quiet.1 (op.groupsLeft left)
      obtain ⟨signs, inner⟩ := binary_fills op front (Expr.groupsLeft_continues keeps.1)
        (Expr.operandPower_lt_tight keeps.2) quiet.2 (each right (by simp [Form.inside]))
      show ∃ signs, Rereads level .closed _ _ signs
      exact ⟨_, by simpa [Form.text, Expr.text, String.append_assoc] using inner.parens⟩
  | hasAttr subject segments =>
      simp only [Form.comments, List.append_eq_nil_iff] at quiet
      rw [Form.inside, List.forall_mem_cons] at each
      obtain ⟨_, front⟩ := each.1.group quiet.1 subject.startsWithNot
      have few := Expr.startsWithNot_continues keeps
      have other := mt (@few .question) (by decide)
      obtain ⟨signs, inner⟩ := hasAttr_fills front other wellFormed.present
        (.intro wellFormed.each core quiet.2 each.2)
      show ∃ signs, Rereads level .closed _ _ signs
      exact ⟨_, by simpa [Form.text, Expr.text, String.append_assoc] using inner.parens⟩
  | unary op operand =>
      obtain ⟨_, inner⟩ := each operand List.mem_cons_self quiet
      cases op with
      | not => exact ⟨_, inner.invert⟩
      | negate =>
          rw [operand.fit_negate]
          exact ⟨_, inner.negate (Expr.fit_ne_path core)⟩
  | select subject segments =>
      simp only [Form.comments, List.append_eq_nil_iff] at quiet
      rw [Form.inside, List.forall_mem_cons] at each
      obtain ⟨_, front⟩ := each.1.group quiet.1 subject.groupsInSelect
      rw [subject.fit_subject] at front
      obtain ⟨signs, inner⟩ := select_reread front wellFormed.present
        (.intro wellFormed.each core quiet.2 each.2)
      show ∃ signs, Rereads level .selected _ _ signs
      exact ⟨_, by simpa [Form.text, Expr.text, String.append_assoc] using inner⟩
  | conditional condition yes no =>
      obtain ⟨signs, inner⟩ := conditional_fills quiet each
      exact ⟨_, inner.parens⟩
  | importing target =>
      obtain ⟨signs, inner⟩ := importing_fills quiet (each target List.mem_cons_self)
      exact ⟨_, inner.parens⟩

/-! ## Whole trees -/

/-- Clauses are read back in front of what fills parentheses. -/
theorem clauses_fill {level : FallbackLevel} {clauses : List Clause} {text : String} {form : Form}
    {signs : List Sign} (inner : Fills level text (.bare form) signs)
    (quiet : Clause.comments clauses = [])
    (each : ∀ part ∈ clauses.map Clause.subject, part.Reread level) :
    ∃ signs', Fills level (Clause.text clauses ++ text) { clauses, form, margin := {} } signs' := by
  induction clauses with
  | nil => exact ⟨signs, by simpa [Clause.text, Expr.bare] using inner⟩
  | cons clause clauses ih =>
      obtain ⟨kind, subject⟩ := clause
      rw [Clause.comments, List.append_eq_nil_iff] at quiet
      rw [List.map_cons, List.forall_mem_cons] at each
      obtain ⟨_, behind⟩ := ih quiet.2 each.2
      obtain ⟨signs', front⟩ := clause_fills kind behind quiet.1 each.1
      refine ⟨signs', ?_⟩
      simpa [Clause.text, Expr.text, Expr.addClause, String.append_assoc] using front

namespace Expr.Every

variable {level : FallbackLevel} {value : Expr}

/-- A tree that keeps its operands together is read back from its text. -/
theorem rereads (every : value.Every fun node =>
      node.WellFormed ∧ node.form.IsOrdinary ∧ node.form.KeepsGrouping level) :
    value.Reread level := by
  induction every with
  | @node value here parts ih =>
      intro quiet
      obtain ⟨margin, same⟩ := Expr.margin_quiet quiet
      obtain ⟨clauses, form, _⟩ := value
      obtain rfl : _ = ({} : Margin) := margin
      simp only [Expr.comments, List.append_eq_nil_iff] at quiet
      obtain ⟨⟨⟨-, quietClauses⟩, quietForm⟩, -⟩ := quiet
      rw [Expr.inside, List.forall_mem_append] at ih
      obtain ⟨signs, inner⟩ := Form.reread here.1 here.2.1 here.2.2 quietForm ih.2
      rw [same, Expr.body]
      cases clauses with
      | nil =>
          have bare : form.groupsInMargin {} = false := by simp [Form.groupsInMargin]
          rw [bare]
          exact ⟨signs, inner⟩
      | cons clause clauses =>
          obtain ⟨_, filled⟩ := clauses_fill inner.fills quietClauses ih.1
          exact ⟨_, filled.parens⟩

/-- Nothing in a tree of the core language ends in the operand of a `!`. -/
theorem not_hangs (every : value.Every IsCore) : ¬ value.hangs := by
  induction every with
  | @node value here parts ih =>
      obtain ⟨clauses, form, margin⟩ := value
      rw [hangs, Bool.and_eq_true]
      rintro ⟨-, hanging⟩
      cases form with
      | unary op operand =>
          cases op with
          | not => exact here
          | negate => exact ih operand (by simp [Expr.inside, Form.inside]) hanging
      | _ => cases hanging

/-- So no operand in it needs parentheses that it does not get. -/
theorem keepsGrouping (every : value.Every IsCore) : value.form.KeepsGrouping .lowest := by
  obtain ⟨clauses, form, margin⟩ := value
  have parts : ∀ part ∈ form.inside, ¬ part.hangs :=
    fun part inside => (every.parts part (List.mem_append_right _ inside)).not_hangs
  cases form with
  | list elements inner =>
      have known : elements.Pairwise fun value next => value.hangs → next.startsWithNot :=
        List.pairwise_of_forall_mem_list fun value member _ _ hangs =>
          absurd hangs (parts value member)
      exact known.isChain
  | apply function arguments => exact fun hangs => absurd hangs (parts _ List.mem_cons_self)
  | hasAttr subject segments => exact fun hangs => absurd hangs (parts _ List.mem_cons_self)
  | binary op left right =>
      exact ⟨fun _ hangs => absurd hangs (parts _ List.mem_cons_self), nofun⟩
  | _ => trivial

/-- A tree of the core language is read back from its text. -/
theorem reread (every : value.Every fun node => node.WellFormed ∧ node.IsCore) :
    value.Reread .lowest := by
  have core := every.imp fun node whole => whole.here.2
  apply rereads
  apply (every.and (core.imp fun node whole => whole.keepsGrouping)).imp
  exact fun node whole => ⟨whole.here.1.1, whole.here.1.2.isOrdinary, whole.here.2⟩

end Expr.Every

/-- A parsed document of the core language without comments is parsed again from
its text, whatever its file is called and however deep expressions may nest, if
they may nest deep enough. -/
theorem parse_printed {options : Options} {source : String} {document : Document}
    (parsed : parse options source = .ok document) (quiet : document.comments = [])
    (core : document.value.Every Expr.IsCore) :
    ∃ enough, ∀ again : Options, again.fallback = .lowest → enough ≤ again.maxDepth →
      parse again document.text = .ok document := by
  obtain ⟨before, value, after⟩ := document
  simp only [Document.comments, List.append_eq_nil_iff] at quiet
  obtain ⟨⟨rfl, quiet⟩, rfl⟩ := quiet
  obtain ⟨signs, inner⟩ := ((parse_wellFormed parsed).and core).reread quiet
  obtain ⟨enough, yields⟩ := Filter.eventually_atTop.1 inner.fills.settles
  refine ⟨enough, ?_⟩
  intro again lowest deep
  have text : Document.text ⟨[], value, []⟩ = value.text := by simp [Document.text, ownLines]
  rw [text]
  apply parse_legible inner.fills.legible (by rintro _ ⟨⟩)
  rw [lowest]
  exact (yields _ deep again.maxDepth).known (by decide)

/-- A dash, a dotted name, a path in front of a parenthesis, `or`, and a pair of
dollar signs in front of an interpolation. -/
theorem parse_printed_dollars :
    ∃ document, parse { maxDepth := 8 } "-x.y * f ./p or \"$$$\x7bz\x7d\"" = .ok document ∧
      document.text = "((-x.y * (f ./p)) or \"$$$\x7bz\x7d\")" ∧
      ∃ enough, ∀ again : Options, again.fallback = .lowest → enough ≤ again.maxDepth →
        parse again document.text = .ok document := by
  have parsed : parse { maxDepth := 8 } "-x.y * f ./p or \"$$$\x7bz\x7d\"" = .ok
      { before := []
        value := .bare (.binary .fallback
          (.bare (.binary .mul
            (.bare (.unary .negate (.bare (.name [.name "x", .name "y"]))))
            (.bare (.apply (.bare (.name [.name "f"])) [.bare (.path "./p")]))))
          (.bare (.string false [.literal "$$", .interpolated (.bare (.name [.name "z"]))])))
        after := [] } := by
    cbv
  have name : ∀ segments : List String,
      (Expr.bare (.name (segments.map .name))).Every Expr.IsCore := by
    intro segments
    apply Expr.Every.bare
    · simp [Expr.IsCore, Expr.bare, Form.IsCore, Segment.Paired]
    · induction segments with
      | nil => exact List.forall_mem_nil _
      | cons segment segments ih => exact ih
  have negation : (Expr.bare (.unary .negate _)).Every Expr.IsCore :=
    .bare (by rintro ⟨-, text, ⟨⟩⟩) (List.forall_mem_singleton.2 (name ["x", "y"]))
  have path : (Expr.bare (.path "./p")).Every Expr.IsCore := .bare trivial (List.forall_mem_nil _)
  have application : (Expr.bare (.apply _ [_])).Every Expr.IsCore :=
    .bare trivial (List.forall_mem_cons.2 ⟨name ["f"], List.forall_mem_singleton.2 path⟩)
  have product : (Expr.bare (.binary .mul _ _)).Every Expr.IsCore :=
    .bare trivial (List.forall_mem_cons.2 ⟨negation, List.forall_mem_singleton.2 application⟩)
  have paired : StringPart.Paired [.literal "$$", .interpolated (.bare (.name [.name "z"]))] := by
    intro text value inside
    cases inside.eq_of_length rfl
    decide
  have string : (Expr.bare (.string false _)).Every Expr.IsCore :=
    .bare ⟨rfl, paired⟩ (List.forall_mem_singleton.2 (name ["z"]))
  have core : (Expr.bare (.binary .fallback _ _)).Every Expr.IsCore :=
    .bare trivial (List.forall_mem_cons.2 ⟨product, List.forall_mem_singleton.2 string⟩)
  exact ⟨_, parsed, by cbv, parse_printed parsed rfl core⟩

/-- Comments need not come back with the tree.  The printer puts all comments
after a parameter with a default behind its comma, also those that leave the
line.  A carriage return in the source ends the first comment here but not the
line, so both belong to the first parameter, and the second one goes over to the
parameter below when the text is read again. -/
theorem default_comments_move :
    ∃ document again, parse { maxDepth := 8 } "\x7b a ? 1, # 1\r # 2\n b \x7d: a" = .ok document ∧
      document.text = "(\x7b a ? 1, # 1\n # 2\n b \x7d: a)" ∧
      parse { maxDepth := 8 } document.text = .ok again ∧
      again.plain = document.plain ∧ again ≠ document := by
  have parsed : parse { maxDepth := 8 } "\x7b a ? 1, # 1\r # 2\n b \x7d: a" = .ok
      { before := []
        value := .bare (.patternLambda
          [⟨"a", some (.bare (.int 1)), ⟨[], [⟨.line, " 1"⟩, ⟨.line, " 2"⟩]⟩⟩, ⟨"b", none, {}⟩]
          false none [] (.bare (.name [.name "a"])))
        after := [] } := by
    cbv
  have reread : parse { maxDepth := 8 } "(\x7b a ? 1, # 1\n # 2\n b \x7d: a)" = .ok
      { before := []
        value := .bare (.patternLambda
          [⟨"a", some (.bare (.int 1)), ⟨[], [⟨.line, " 1"⟩]⟩⟩, ⟨"b", none, ⟨[⟨.line, " 2"⟩], []⟩⟩]
          false none [] (.bare (.name [.name "a"])))
        after := [] } := by
    cbv
  have printed : Document.text
      { before := []
        value := .bare (.patternLambda
          [⟨"a", some (.bare (.int 1)), ⟨[], [⟨.line, " 1"⟩, ⟨.line, " 2"⟩]⟩⟩, ⟨"b", none, {}⟩]
          false none [] (.bare (.name [.name "a"])))
        after := [] } = "(\x7b a ? 1, # 1\n # 2\n b \x7d: a)" := by
    cbv
  refine ⟨_, _, parsed, printed, (congrArg (parse _) printed).trans reread, ?_, ?_⟩
  · simp [Document.plain, Param.plain_mk]
  · intro same
    cases same

/-! ## Prefix operators -/

/-- What is read back is parsed again if expressions may nest deep enough. -/
theorem Expr.Reread.parse {level : FallbackLevel} {value : Expr} (reread : value.Reread level)
    (quiet : value.comments = []) :
    ∃ enough, ∀ again : Options, again.fallback = level → enough ≤ again.maxDepth →
      NixSyntax.parse again (Document.text ⟨[], value, []⟩) = .ok ⟨[], value, []⟩ := by
  obtain ⟨signs, inner⟩ := reread.fills quiet
  obtain ⟨enough, yields⟩ := Filter.eventually_atTop.1 inner.settles
  refine ⟨enough, ?_⟩
  rintro again rfl deep
  have text : Document.text ⟨[], value, []⟩ = value.text := by simp [Document.text, ownLines]
  rw [text]
  apply parse_legible inner.legible (by rintro _ ⟨⟩)
  exact (yields _ deep again.maxDepth).known (by decide)

/-- A parsed document without comments, with `!` in front of operands too, is parsed
again from its text at either level of `or`, if all its forms keep their operands
together there. -/
theorem parse_grouped {options : Options} {source : String} {document : Document}
    (level : FallbackLevel) (parsed : parse options source = .ok document)
    (quiet : document.comments = [])
    (keeps : document.value.Every fun node =>
      node.form.IsOrdinary ∧ node.form.KeepsGrouping level) :
    ∃ enough, ∀ again : Options, again.fallback = level → enough ≤ again.maxDepth →
      parse again document.text = .ok document := by
  obtain ⟨before, value, after⟩ := document
  simp only [Document.comments, List.append_eq_nil_iff] at quiet
  obtain ⟨⟨rfl, quiet⟩, rfl⟩ := quiet
  exact ((parse_wellFormed parsed).and keeps).rereads.parse quiet

/-- A `!` on the left of a sum, one at the end of a list and in front of a dash, and
a selection on the left of an `or` as tight as it. -/
theorem parse_grouped_select :
    ∃ document, parse { maxDepth := 8, fallback := .select }
        "(!a) + [ (f b).c or d (!-e) ]" = .ok document ∧
      document.text = "((!a) + [ ((f b).c or d) !-e ])" ∧
      ∃ enough, ∀ again : Options, again.fallback = .select → enough ≤ again.maxDepth →
        parse again document.text = .ok document := by
  have parsed : parse { maxDepth := 8, fallback := .select }
      "(!a) + [ (f b).c or d (!-e) ]" = .ok
        { before := []
          value := .bare (.binary .add (.bare (.unary .not (.bare (.name [.name "a"]))))
            (.bare (.list
              [.bare (.binary .fallback
                (.bare (.select
                  (.bare (.apply (.bare (.name [.name "f"])) [.bare (.name [.name "b"])]))
                  [.name "c"]))
                (.bare (.name [.name "d"]))),
               .bare (.unary .not (.bare (.unary .negate (.bare (.name [.name "e"])))))] [])))
          after := [] } := by
    cbv
  let keeps : Expr → Prop := fun node =>
    node.form.IsOrdinary ∧ node.form.KeepsGrouping .select
  have name : ∀ text : String, (Expr.bare (.name [.name text])).Every keeps := fun text =>
    .bare ⟨List.forall_mem_singleton.2 trivial, trivial⟩ (List.forall_mem_nil _)
  have inversion : ∀ operand : Expr, operand.Every keeps →
      (Expr.bare (.unary .not operand)).Every keeps := fun operand every =>
    .bare ⟨trivial, trivial⟩ (List.forall_mem_singleton.2 every)
  have negation : (Expr.bare (.unary .negate _)).Every keeps :=
    .bare ⟨by rintro ⟨-, text, ⟨⟩⟩, trivial⟩ (List.forall_mem_singleton.2 (name "e"))
  have application : (Expr.bare (.apply (.bare (.name _)) [_])).Every keeps :=
    .bare ⟨trivial, fun hangs => absurd hangs (by decide)⟩
      (List.forall_mem_cons.2 ⟨name "f", List.forall_mem_singleton.2 (name "b")⟩)
  have selection : (Expr.bare (.select _ [.name "c"])).Every keeps :=
    .bare ⟨List.forall_mem_singleton.2 trivial, trivial⟩
      (List.forall_mem_singleton.2 application)
  have fallback : (Expr.bare (.binary .fallback _ _)).Every keeps :=
    .bare ⟨trivial, by decide, by rintro - - ⟨-, ⟨⟩⟩⟩
      (List.forall_mem_cons.2 ⟨selection, List.forall_mem_singleton.2 (name "d")⟩)
  have list : (Expr.bare (.list [.bare (.binary .fallback _ _), _] [])).Every keeps :=
    .bare ⟨trivial, List.isChain_pair.2 fun hangs => absurd hangs (by decide)⟩
      (List.forall_mem_cons.2
        ⟨fallback, List.forall_mem_singleton.2 (inversion _ negation)⟩)
  have sum : (Expr.bare (.binary .add _ _)).Every keeps :=
    .bare ⟨trivial, fun _ _ => rfl, fun _ same => absurd same (by decide)⟩
      (List.forall_mem_cons.2 ⟨inversion _ (name "a"), List.forall_mem_singleton.2 list⟩)
  exact ⟨_, parsed, by cbv, parse_grouped .select parsed rfl sum⟩

/-- An element of a list is written without parentheses.  If it starts with `!`, the
next element is read as an argument of its operand. -/
theorem list_element_taken :
    ∃ document, parse {} "[ (!a) b ]" = .ok document ∧ document.comments = [] ∧
      document.text = "[ !a b ]" ∧
      ∀ depth, parse { maxDepth := depth } document.text ≠ .ok document := by
  obtain ⟨document, again, parsed, quiet, printed, taken, differs⟩ :
      ∃ document again, parse {} "[ (!a) b ]" = .ok document ∧ document.comments = [] ∧
        document.text = "[ !a b ]" ∧ parse {} "[ !a b ]" = .ok again ∧ again ≠ document := by
    refine ⟨_, _, by cbv, rfl, by cbv, by cbv, ?_⟩
    intro same
    cases same
  refine ⟨document, parsed, quiet, printed, ?_⟩
  rw [printed]
  exact parse_ne taken differs

-- A dash hides the `!` behind it from the printer.
example :
    ∃ document again, parse {} "(-!a) + b" = .ok document ∧
      parse {} document.text = .ok again ∧ again ≠ document := by
  refine ⟨_, _, by cbv, by cbv, ?_⟩
  intro same
  cases same

-- A selection on the right of an `or` that is as tight is taken from the whole.
example :
    ∃ document again, parse { fallback := .select } "a or ((b c).d)" = .ok document ∧
      parse { fallback := .select } document.text = .ok again ∧ again ≠ document := by
  refine ⟨_, _, by cbv, by cbv, ?_⟩
  intro same
  cases same

end NixSyntax
