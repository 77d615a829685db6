/-
Module: NixSyntax.Proofs.Inversion
Purpose: What every rule of the grammar reads when it succeeds, rule by rule.
Main exports: one equivalence for each rule, Token.literal?, Parser.expression_succ_ok,
  Parser.continuation_ok, parseTokens_ok
-/
import Mathlib.Tactic.Simproc.ExistsAndEq
import Mathlib.Tactic.SplitIfs
import NixSyntax.Proofs.Run

namespace NixSyntax

/-!
A rule takes the parser for nested expressions as an argument, so its inversion
says nothing about nesting: it names the runs of that parser and the tokens
around them.  Every property of all parses is then proved rule by rule from
these equivalences, and no later proof opens a rule again.
-/

/-- What a token stands for as an expression of its own. -/
def Token.literal? (token : Token) : Option Form :=
  match token.kind with
  | .int => (readInteger token.value).map .int
  | .float => (readFloat token.value).map .float
  | .kwTrue => some (.bool true)
  | .kwFalse => some (.bool false)
  | .kwNull => some .null
  | .path => some (.path token.value)
  | _ => none

/-- The kinds at which a rule can start that reads its first token without
looking. -/
def StartRule.Opens : StartRule → Kind → Prop
  | group, kind => kind = .parenOpen
  | list, kind => kind = .bracketOpen
  | importing, kind => kind = .kwImport
  | unary, kind => kind ∈ [Kind.dash, .not]
  | conditional, kind => kind = .kwIf
  | clause, kind => kind ∈ [Kind.kwWith, .kwAssert]
  | _, _ => True

theorem standardStart_opens {kind : Kind} {rule : StartRule}
    (start : Grammar.standardStart kind = some rule) : rule.Opens kind := by
  cases kind <;> cases start <;> simp [StartRule.Opens]

/-- The same for the rules that join. -/
def JoinRule.Opens : JoinRule → Kind → Prop
  | hasAttr, kind => kind = .question
  | select, kind => kind = .dot
  | _, _ => True

theorem standardJoin_opens {fallback : FallbackLevel} {kind : Kind} {power : Power}
    {rule : JoinRule} (joins : Grammar.standardJoin fallback kind = some (power, rule)) :
    rule.Opens kind := by
  revert joins
  cases rule <;> cases kind <;>
    simp [JoinRule.Opens, Grammar.standardJoin, Kind.argumentStart]

/-- A function goes on where an argument starts. -/
theorem standardJoin_apply {fallback : FallbackLevel} {kind : Kind} {power : Power}
    (joins : Grammar.standardJoin fallback kind = some (power, .apply)) :
    kind ∈ Kind.argumentStart := by
  revert joins
  cases kind <;> simp [Grammar.standardJoin, Kind.argumentStart]

namespace Parser

variable {source target : Stream} {expr : ExprParser}

/-! ## Strings and attribute paths -/

theorem interpolated_ok {value : Expr} :
    interpolated expr source = .ok value target ↔
      source.current.kind = .interpOpen ∧
        ∃ s₁, expr .base source.advance.2 = .ok value s₁ ∧
          s₁.current.kind = .interpClose ∧ s₁.advance.2 = target := by
  simp [interpolated, bind_ok, map_ok, expect_ok, and_assoc]

theorem stringPart_ok {close : Kind} {part : Option StringPart} :
    stringPart expr close source = .ok part target ↔
      (source.current.kind = .fragment ∧ source.advance.2 = target ∧
        part = some (.literal source.current.value)) ∨
      (∃ value, interpolated expr source = .ok value target ∧
        part = some (.interpolated value)) ∨
      (source.current.kind ≠ .fragment ∧ source.current.kind ≠ .interpOpen ∧
        source.current.kind = close ∧ part = none ∧ source = target) := by
  unfold stringPart
  rw [currentKind_bind]
  cases kind : source.current.kind <;>
    simp [kind, interpolated_ok, map_ok, advance_ok, ite_ok, pure_ok, unexpected_ok,
      eq_comm (b := part)]

theorem stringLiteral_ok {indented : Bool} {parts : List StringPart} :
    stringLiteral expr source = .ok (indented, parts) target ↔
      source.current.kind ∈ [Kind.quoteOpen, .indentOpen] ∧ ∃ s₁,
        many (stringPart expr
            (if source.current.kind = .indentOpen then .indentClose else .quoteClose))
          source.advance.2 = .ok parts s₁ ∧
        s₁.advance.2 = target ∧ (source.current.kind == .indentOpen) = indented := by
  simp [stringLiteral, bind_ok, map_ok, expectOneOf_ok, advance_ok, and_assoc]

theorem segment_ok {segment : Segment} :
    Parser.segment expr source = .ok segment target ↔
      (source.current.kind ∈ [Kind.identifier, .kwOr] ∧ source.advance.2 = target ∧
        segment = .name source.current.value) ∨
      (∃ value, interpolated expr source = .ok value target ∧ segment = .computed value) ∨
      (source.current.kind = .quoteOpen ∧ ∃ indented parts,
        stringLiteral expr source = .ok (indented, parts) target ∧
          segment = .quoted parts) := by
  unfold Parser.segment
  rw [currentKind_bind]
  cases kind : source.current.kind <;>
    simp [kind, interpolated_ok, map_ok, advance_ok, unexpected_ok, eq_comm (b := segment)]

theorem dottedSegment_ok {segment : Option Segment} :
    dottedSegment expr source = .ok segment target ↔
      (source.current.kind = .dot ∧ ∃ found,
        Parser.segment expr source.advance.2 = .ok found target ∧ segment = some found) ∨
      (source.current.kind ≠ .dot ∧ segment = none ∧ source = target) := by
  by_cases dot : source.current.kind = .dot <;>
    simp [dottedSegment, bind_ok, map_ok, skip_ok, ite_ok, pure_ok, dot,
      eq_comm (b := segment)]

theorem attrPath_ok {path : List Segment} :
    attrPath expr source = .ok path target ↔
      ∃ first s₁ others, Parser.segment expr source = .ok first s₁ ∧
        many (dottedSegment expr) s₁ = .ok others target ∧ path = first :: others := by
  simp [attrPath, bind_ok, map_ok, eq_comm (b := path)]

/-! ## Entries of sets and of `let` -/

theorem assignment_ok {comments : List Comment} {entry : Binding} :
    assignment expr comments source = .ok entry target ↔
      ∃ path s₁ value s₂ after,
        attrPath expr source = .ok path s₁ ∧ s₁.current.kind = .assign ∧
        expr .base s₁.advance.2 = .ok value s₂ ∧ s₂.current.kind = .semicolon ∧
        takeUnclaimed s₂.advance.2 = .ok after target ∧
        entry = .assign path (value.addAfter after) comments := by
  simp [assignment, bind_ok, map_ok, expect_ok, and_assoc, eq_comm (b := entry)]

theorem inheritSource_ok {origin : Option Expr} :
    inheritSource expr source = .ok origin target ↔
      (source.current.kind = .parenOpen ∧ ∃ value s₁,
        expr .base source.advance.2 = .ok value s₁ ∧ s₁.current.kind = .parenClose ∧
        s₁.advance.2 = target ∧ origin = some value) ∨
      (source.current.kind ≠ .parenOpen ∧ origin = none ∧ source = target) := by
  by_cases paren : source.current.kind = .parenOpen <;>
    simp [inheritSource, bind_ok, map_ok, skip_ok, ite_ok, expect_ok, pure_ok, paren, and_assoc,
      eq_comm (b := origin)]

theorem inheritedName_ok {name : Option Segment} :
    inheritedName expr source = .ok name target ↔
      (source.current.kind = .semicolon ∧ name = none ∧ source = target) ∨
      (source.current.kind ≠ .semicolon ∧ ∃ found,
        segment expr source = .ok found target ∧ name = some found) := by
  by_cases semicolon : source.current.kind = .semicolon <;>
    simp [inheritedName, bind_ok, map_ok, currentKind_ok, ite_ok, pure_ok, semicolon, and_assoc,
      eq_comm (b := name)]

theorem inheritance_ok {comments : List Comment} {entry : Binding} :
    inheritance expr comments source = .ok entry target ↔
      source.current.kind = .kwInherit ∧ ∃ origin s₁ first s₂ others s₃ after,
        inheritSource expr source.advance.2 = .ok origin s₁ ∧
        segment expr s₁ = .ok first s₂ ∧
        many (inheritedName expr) s₂ = .ok others s₃ ∧
        takeUnclaimed s₃.advance.2 = .ok after target ∧
        entry = .inherit origin (first :: others) (comments ++ after) := by
  simp [inheritance, bind_ok, map_ok, expect_ok, advance_ok, and_assoc, eq_comm (b := entry)]

theorem binding_ok {close : Kind} {entry : Option Binding} :
    binding expr close source = .ok entry target ↔
      (source.current.kind = close ∧ entry = none ∧ source = target) ∨
      (source.current.kind ≠ close ∧ source.current.kind ∈ Kind.bindingStart ∧
        ∃ comments s₁ found, takeBefore source = .ok comments s₁ ∧
          ((source.current.kind = .kwInherit ∧
              inheritance expr comments s₁ = .ok found target) ∨
            (source.current.kind ≠ .kwInherit ∧
              assignment expr comments s₁ = .ok found target)) ∧
          entry = some found) := by
  rw [binding, currentKind_bind]
  split_ifs with same start inherits
  · simp [pure_ok, same, eq_comm (b := entry)]
  · rw [inherits] at same start
    simp [bind_ok, map_ok, same, start, inherits, eq_comm (b := entry)]
  · simp [bind_ok, map_ok, same, start, inherits, eq_comm (b := entry)]
  · simp [unexpected_ok, same, start]

theorem bindings_ok {close : Kind} {entries : List Binding} {inner : List Comment} :
    bindings expr close source = .ok (entries, inner) target ↔
      ∃ s₁, many (binding expr close) source = .ok entries s₁ ∧
        takeBefore s₁ = .ok inner target := by
  simp [bindings, bind_ok, map_ok]

theorem attrs_ok {recursive : Bool} {value : Expr} :
    attrs expr recursive source = .ok value target ↔
      source.current.kind = .curlyOpen ∧ ∃ entries inner s₁,
        bindings expr .curlyClose source.advance.2 = .ok (entries, inner) s₁ ∧
        s₁.current.kind = .curlyClose ∧ s₁.advance.2 = target ∧
        value = .bare (.attrs recursive entries inner) := by
  simp [attrs, bind_ok, map_ok, expect_ok, and_assoc, eq_comm (b := value)]

theorem recursiveAttrs_ok {value : Expr} :
    recursiveAttrs expr source = .ok value target ↔
      source.current.kind = .kwRec ∧ attrs expr true source.advance.2 = .ok value target := by
  simp [recursiveAttrs, bind_ok, expect_ok, and_assoc]

theorem letIn_ok {value : Expr} :
    letIn expr source = .ok value target ↔
      source.current.kind = .kwLet ∧ source.advance.2.current.kind ≠ .curlyOpen ∧
        ∃ entries inner s₁ body,
          bindings expr .kwIn source.advance.2 = .ok (entries, inner) s₁ ∧
          s₁.current.kind = .kwIn ∧ expr .base s₁.advance.2 = .ok body target ∧
          value = .bare (.letIn entries inner body) := by
  simp [letIn, bind_ok, map_ok, expect_ok, currentKind_ok, ite_ok, rejected_ok, and_assoc,
    eq_comm (b := value)]

/-! ## Functions -/

theorem paramDefault_ok {default : Option Expr} :
    paramDefault expr source = .ok default target ↔
      (source.current.kind = .question ∧ ∃ value,
        expr .base source.advance.2 = .ok value target ∧ default = some value) ∨
      (source.current.kind ≠ .question ∧ default = none ∧ source = target) := by
  by_cases question : source.current.kind = .question <;>
    simp [paramDefault, bind_ok, map_ok, skip_ok, ite_ok, pure_ok, question,
      eq_comm (b := default)]

theorem param_ok {param : Param} :
    Parser.param expr source = .ok param target ↔
      ∃ before s₁ default s₂ s₃ after,
        takeBefore source = .ok before s₁ ∧ s₁.current.kind = .identifier ∧
        paramDefault expr s₁.advance.2 = .ok default s₂ ∧
        ((s₂.current.kind = .comma ∧ s₂.advance.2 = s₃) ∨
          (s₂.current.kind = .curlyClose ∧ s₂ = s₃)) ∧
        takeUnclaimed s₃ = .ok after target ∧
        param = { name := s₁.current.value, default, margin := { before, after } } := by
  simp only [Parser.param, bind_pure_comp, bind_ok, map_ok, expect_ok, skip_ok, ite_ok,
    currentKind_ok, unexpected_ok, ne_eq, and_assoc, eq_comm (b := param), Bool.not_eq_true,
    Bool.exists_bool, Bool.false_eq_true, Bool.true_eq_false, false_and, and_false, or_false,
    false_or, true_and, exists_const, exists_and_left, exists_eq_left', ↓existsAndEq,
    Stream.advance_value]
  constructor
  · rintro ⟨before, s₁, took, name, default, s₂, read,
      ⟨_, close, after, claimed, rfl⟩ | ⟨comma, after, claimed, rfl⟩⟩
    · exact ⟨before, s₁, took, name, default, s₂, read, s₂, .inr ⟨close, rfl⟩, after,
        claimed, rfl⟩
    · exact ⟨before, s₁, took, name, default, s₂, read, _, .inl ⟨comma, rfl⟩, after,
        claimed, rfl⟩
  · rintro ⟨before, s₁, took, name, default, s₂, read, _,
      ⟨comma, rfl⟩ | ⟨close, rfl⟩, after, claimed, rfl⟩
    · exact ⟨before, s₁, took, name, default, s₂, read, .inr ⟨comma, after, claimed, rfl⟩⟩
    · exact ⟨before, s₁, took, name, default, s₂, read,
        .inl ⟨by simp [close], close, after, claimed, rfl⟩⟩

theorem nextParam_ok {param : Option Param} :
    nextParam expr source = .ok param target ↔
      (source.current.kind ∈ [Kind.curlyClose, .ellipsis] ∧ param = none ∧ source = target) ∨
      (source.current.kind = .identifier ∧ ∃ found,
        Parser.param expr source = .ok found target ∧ param = some found) := by
  unfold nextParam
  rw [currentKind_bind]
  cases kind : source.current.kind <;>
    simp [map_ok, pure_ok, unexpected_ok, eq_comm (b := param)]

theorem pattern_ok {pattern : Pattern} :
    Parser.pattern expr source = .ok pattern target ↔
      source.current.kind = .curlyOpen ∧ ∃ params s₁ isOpen s₂ inner s₃,
        many (nextParam expr) source.advance.2 = .ok params s₁ ∧
        skip .ellipsis s₁ = .ok isOpen s₂ ∧ takeBefore s₂ = .ok inner s₃ ∧
        s₃.current.kind = .curlyClose ∧ s₃.advance.2 = target ∧
        pattern = { params, isOpen, inner } := by
  simp [Parser.pattern, bind_ok, map_ok, expect_ok, and_assoc, eq_comm (b := pattern)]

theorem wholeBefore_ok {whole : Option String} :
    wholeBefore source = .ok whole target ↔
      (source.current.kind = .identifier ∧ source.advance.2.current.kind = .atSign ∧
        source.advance.2.advance.2 = target ∧ whole = some source.current.value) ∨
      (source.current.kind ≠ .identifier ∧ whole = none ∧ source = target) := by
  by_cases identifier : source.current.kind = .identifier <;>
    simp [wholeBefore, bind_ok, map_ok, currentKind_ok, expect_ok, advance_ok, pure_ok,
      identifier, and_assoc, eq_comm (b := whole)]

theorem wholeAfter_ok {given whole : Option String} :
    wholeAfter given source = .ok whole target ↔
      (source.current.kind = .atSign ∧ given = none ∧
        source.advance.2.current.kind = .identifier ∧
        source.advance.2.advance.2 = target ∧
        whole = some source.advance.2.current.value) ∨
      (source.current.kind ≠ .atSign ∧ whole = given ∧ source = target) := by
  by_cases sign : source.current.kind = .atSign <;> cases given <;>
    simp [wholeAfter, bind_ok, map_ok, currentKind_ok, expectOr_ok, advance_ok, pure_ok,
      rejected_ok, sign, and_assoc, eq_comm (b := whole)]

theorem patternLambda_ok {value : Expr} :
    patternLambda expr source = .ok value target ↔
      ∃ given s₁ pattern s₂ whole s₃ body,
        wholeBefore source = .ok given s₁ ∧ Parser.pattern expr s₁ = .ok pattern s₂ ∧
        wholeAfter given s₂ = .ok whole s₃ ∧ s₃.current.kind = .colon ∧
        expr .base s₃.advance.2 = .ok body target ∧
        value = .bare (.patternLambda pattern.params pattern.isOpen whole pattern.inner body) := by
  simp [patternLambda, bind_ok, map_ok, expect_ok, and_assoc, eq_comm (b := value)]

theorem namedLambda_ok {value : Expr} :
    namedLambda expr source = .ok value target ↔
      source.advance.2.current.kind = .colon ∧ ∃ body,
        expr .base source.advance.2.advance.2 = .ok body target ∧
        value = .bare (.lambda source.current.value body) := by
  simp [namedLambda, bind_ok, map_ok, advance_ok, expect_ok, and_assoc, eq_comm (b := value)]

theorem lambda_ok {value : Expr} :
    lambda expr source = .ok value target ↔
      (source.current.kind = .identifier ∧ (source.peek 1).kind = .colon ∧
        namedLambda expr source = .ok value target) ∨
      (¬ (source.current.kind = .identifier ∧ (source.peek 1).kind = .colon) ∧
        patternLambda expr source = .ok value target) := by
  simp [lambda, bind_ok, currentKind_ok, peekKind_ok, ite_ok, and_assoc]

theorem name_ok {value : Expr} :
    name expr source = .ok value target ↔
      ((source.peek 1).kind ∈ [Kind.colon, .atSign] ∧ lambda expr source = .ok value target) ∨
      ((source.peek 1).kind ∉ [Kind.colon, .atSign] ∧ ∃ path,
        attrPath expr source = .ok path target ∧ value = .bare (.name path)) := by
  unfold name
  rw [peekKind_bind]
  cases kind : (source.peek 1).kind <;>
    simp [map_ok, eq_comm (b := value)]

theorem braces_ok {value : Expr} :
    braces expr source = .ok value target ↔
      (startsPattern source = true ∧ lambda expr source = .ok value target) ∨
      (startsPattern source = false ∧ attrs expr false source = .ok value target) := by
  simp [braces, bind_ok, get_ok, ite_ok, and_assoc]

/-! ## Start rules -/

theorem number_ok {α : Type} {read : String → Option α} {value : α} :
    number read source = .ok value target ↔
      read source.current.value = some value ∧ source.advance.2 = target := by
  cases known : read source.current.value <;>
    simp [number, bind_ok, get_ok, advance_ok, pure_ok, throw_ok, known, and_assoc]

theorem literal_ok {value : Expr} :
    literal source = .ok value target ↔
      ∃ form, source.current.literal? = some form ∧ source.advance.2 = target ∧
        value = .bare form := by
  unfold literal Token.literal?
  rw [currentKind_bind]
  cases kind : source.current.kind <;>
    simp [map_ok, number_ok, advance_ok, unexpected_ok, and_assoc, eq_comm (b := value)]

theorem string_ok {value : Expr} :
    string expr source = .ok value target ↔ ∃ indented parts,
      stringLiteral expr source = .ok (indented, parts) target ∧
        value = .bare (.string indented parts) := by
  simp [string, map_ok, eq_comm (b := value)]

theorem group_ok {value : Expr} :
    group expr source = .ok value target ↔
      ∃ s₁, expr .base source.advance.2 = .ok value s₁ ∧
        s₁.current.kind = .parenClose ∧ s₁.advance.2 = target := by
  simp [group, bind_ok, map_ok, advance_ok, expect_ok, and_assoc]

theorem element_ok {item : Option Expr} :
    element expr source = .ok item target ↔
      (source.current.kind = .bracketClose ∧ item = none ∧ source = target) ∨
      (source.current.kind ∉ [Kind.bracketClose, .endOfInput] ∧ ∃ value,
        expr .application source = .ok value target ∧ item = some value) := by
  unfold element
  rw [currentKind_bind]
  cases kind : source.current.kind <;>
    simp [map_ok, pure_ok, unexpected_ok, eq_comm (b := item)]

theorem list_ok {value : Expr} :
    list expr source = .ok value target ↔ ∃ elements s₁ inner s₂,
      many (element expr) source.advance.2 = .ok elements s₁ ∧
      takeBefore s₁ = .ok inner s₂ ∧ s₂.advance.2 = target ∧
      value = .bare (.list elements inner) := by
  simp [list, bind_ok, map_ok, advance_ok, and_assoc, eq_comm (b := value)]

theorem importing_ok {value : Expr} :
    importing expr source = .ok value target ↔ ∃ subject,
      expr .application source.advance.2 = .ok subject target ∧
        value = .bare (.importing subject) := by
  simp [importing, bind_ok, map_ok, advance_ok, and_assoc, eq_comm (b := value)]

theorem unary_ok {value : Expr} :
    unary expr source = .ok value target ↔
      (source.current.kind = .not ∧ ∃ operand,
        expr .not source.advance.2 = .ok operand target ∧
          value = .bare (.unary .not operand)) ∨
      (source.current.kind ≠ .not ∧ ∃ operand,
        expr .unary source.advance.2 = .ok operand target ∧
          value = .bare (.unary .negate operand)) := by
  by_cases kind : source.current.kind = .not <;>
    simp [unary, bind_ok, map_ok, advance_ok, kind, and_assoc, eq_comm (b := value)]

theorem conditional_ok {value : Expr} :
    conditional expr source = .ok value target ↔ ∃ condition s₁ yes s₂ no,
      expr .base source.advance.2 = .ok condition s₁ ∧ s₁.current.kind = .kwThen ∧
      expr .base s₁.advance.2 = .ok yes s₂ ∧ s₂.current.kind = .kwElse ∧
      expr .base s₂.advance.2 = .ok no target ∧
      value = .bare (.conditional condition yes no) := by
  simp [conditional, bind_ok, map_ok, advance_ok, expect_ok, and_assoc, eq_comm (b := value)]

theorem clause_ok {value : Expr} :
    clause expr source = .ok value target ↔ ∃ subject s₁ after s₂ body,
      expr .base source.advance.2 = .ok subject s₁ ∧ s₁.current.kind = .semicolon ∧
      takeUnclaimed s₁.advance.2 = .ok after s₂ ∧ expr .base s₂ = .ok body target ∧
      value = body.addClause
        { kind := if source.current.kind = .kwAssert then .assertion else .scope
          subject := subject.addAfter after } := by
  simp [clause, bind_ok, map_ok, advance_ok, expect_ok, and_assoc, eq_comm (b := value)]

/-! ## Join rules -/

theorem binary_ok {grammar : Grammar} {left value : Expr} {power : Power} :
    binary grammar expr left power source = .ok value target ↔ ∃ op right,
      BinaryOp.ofKind? source.current.kind = some op ∧
      expr (if op.groupsRight then power.lower else power) source.advance.2 =
        .ok right target ∧
      ¬ (power.isNonAssociative = true ∧ grammar.power target.current.kind = power) ∧
      value = .bare (.binary op left right) := by
  unfold binary
  rw [currentKind_bind]
  cases known : BinaryOp.ofKind? source.current.kind <;>
    simp [bind_ok, advance_ok, currentKind_ok, get_ok, ite_ok, pure_ok, fail_ok, unexpected_ok,
      and_assoc, eq_comm (b := value)]

theorem hasAttr_ok {left value : Expr} :
    hasAttr expr left source = .ok value target ↔ ∃ path,
      attrPath expr source.advance.2 = .ok path target ∧
        value = .bare (.hasAttr left path) := by
  simp [hasAttr, bind_ok, map_ok, advance_ok, and_assoc, eq_comm (b := value)]

theorem select_ok {left value : Expr} :
    select expr left source = .ok value target ↔ ∃ path,
      attrPath expr source.advance.2 = .ok path target ∧
        value = .bare (.select left path) := by
  simp [select, bind_ok, map_ok, advance_ok, and_assoc, eq_comm (b := value)]

theorem argument_ok {item : Option Expr} :
    argument expr source = .ok item target ↔
      (source.current.kind ∈ Kind.argumentStart ∧ ∃ value,
        expr .application source = .ok value target ∧ item = some value) ∨
      (source.current.kind ∉ Kind.argumentStart ∧ item = none ∧ source = target) := by
  by_cases start : source.current.kind ∈ Kind.argumentStart <;>
    simp [argument, bind_ok, map_ok, currentKind_ok, pure_ok, start, and_assoc,
      eq_comm (b := item)]

theorem apply_ok {left value : Expr} :
    apply expr left source = .ok value target ↔ ∃ arguments,
      many (argument expr) source = .ok arguments target ∧
        value = .bare (.apply left arguments) := by
  simp [apply, map_ok, eq_comm (b := value)]

/-! ## Whole expressions -/

theorem expression_zero_ok {grammar : Grammar} {limit : Nat} {power : Power} {value : Expr} :
    ¬ expression grammar limit 0 power source = .ok value target := by
  rw [expression]
  exact fail_ok

theorem expression_succ_ok {grammar : Grammar} {limit levels : Nat} {power : Power}
    {value : Expr} :
    expression grammar limit (levels + 1) power source = .ok value target ↔
      ∃ before s₁ rule first s₂ after s₃,
        takeBefore source = .ok before s₁ ∧ grammar.start s₁.current.kind = some rule ∧
        rule.parse (expression grammar limit levels) s₁ = .ok first s₂ ∧
        takeAfter s₂ = .ok after s₃ ∧
        continuation grammar limit levels power ((first.addBefore before).addAfter after) s₃ =
          .ok value target := by
  rw [expression]
  constructor
  · intro run
    obtain ⟨before, s₁, took, run⟩ := bind_ok.1 run
    rw [currentKind_bind] at run
    cases start : grammar.start s₁.current.kind with
    | none =>
        rw [start] at run
        exact absurd run unexpected_ok
    | some rule =>
        rw [start] at run
        obtain ⟨first, s₂, parsed, run⟩ := bind_ok.1 run
        obtain ⟨after, s₃, claimed, continued⟩ := bind_ok.1 run
        exact ⟨before, s₁, rule, first, s₂, after, s₃, took, start, parsed, claimed, continued⟩
  · rintro ⟨before, s₁, rule, first, s₂, after, s₃, took, start, parsed, claimed, continued⟩
    refine bind_ok.2 ⟨before, s₁, took, ?_⟩
    rw [currentKind_bind, start]
    exact bind_ok.2 ⟨first, s₂, parsed, bind_ok.2 ⟨after, s₃, claimed, continued⟩⟩

/-- Nothing binds looser than the base. -/
theorem not_lt_base (power : Power) : ¬ power < .base :=
  Nat.not_lt_zero power.rank

theorem continuation_ok {grammar : Grammar} {limit levels : Nat} {power : Power}
    {left value : Expr} :
    continuation grammar limit levels power left source = .ok value target ↔
      (¬ power < grammar.power source.current.kind ∧ value = left ∧ source = target) ∨
      ∃ fewer operatorPower rule node s₁ after s₂,
        levels = fewer + 1 ∧
        grammar.join source.current.kind = some (operatorPower, rule) ∧
        power < operatorPower ∧
        rule.parse grammar (expression grammar limit fewer) left operatorPower source =
          .ok node s₁ ∧
        takeAfter s₁ = .ok after s₂ ∧
        continuation grammar limit fewer power (node.addAfter after) s₂ = .ok value target := by
  rw [continuation, currentKind_bind]
  cases joins : grammar.join source.current.kind with
  | none =>
      have loosest : grammar.power source.current.kind = .base := by
        simp [Grammar.power, joins]
      simp [loosest, not_lt_base, pure_ok, eq_comm (b := value)]
  | some join =>
      obtain ⟨operatorPower, rule⟩ := join
      have known : grammar.power source.current.kind = operatorPower := by
        simp [Grammar.power, joins]
      by_cases tighter : power < operatorPower
      · cases levels with
        | zero => simp [known, tighter, fail_ok]
        | succ fewer => simp [known, tighter, bind_ok]
      · simp [known, tighter, pure_ok, eq_comm (b := value)]

theorem document_ok {grammar : Grammar} {limit : Nat} {document : Document} :
    Parser.document grammar limit source = .ok document target ↔
      ∃ before s₁ value s₂ after,
        takeDetached source = .ok before s₁ ∧
        expression grammar limit limit .base s₁ = .ok value s₂ ∧
        s₂.current.kind = .endOfInput ∧ takeBefore s₂ = .ok after target ∧
        document = { before, value, after } := by
  simp [Parser.document, bind_ok, map_ok, currentKind_ok, ite_ok, unexpected_ok, and_assoc,
    eq_comm (b := document)]

end Parser

theorem parseTokens_ok {options : Options} {tokens : List Token} {document : Document} :
    parseTokens options tokens = .ok document ↔
      ∃ target, Parser.document (.standard options.fallback) options.maxDepth
        (.ofTokens options.file tokens) = .ok document target := by
  unfold parseTokens
  dsimp only
  cases Parser.document (.standard options.fallback) options.maxDepth
    (.ofTokens options.file tokens) <;> simp

theorem parseTokens_error {options : Options} {tokens : List Token} {fault : Fault} :
    parseTokens options tokens = .error fault ↔
      ∃ target, Parser.document (.standard options.fallback) options.maxDepth
        (.ofTokens options.file tokens) = .error fault target := by
  unfold parseTokens
  dsimp only
  cases Parser.document (.standard options.fallback) options.maxDepth
    (.ofTokens options.file tokens) <;> simp

theorem parse_ok {options : Options} {source : String} {document : Document} :
    parse options source = .ok document ↔
      ∃ tokens, tokenize options.file source = .ok tokens ∧
        parseTokens options tokens = .ok document := by
  unfold parse
  cases tokenize options.file source <;> simp [bind, Except.bind]

theorem parse_error {options : Options} {source : String} {fault : Fault} :
    parse options source = .error fault ↔
      tokenize options.file source = .error fault ∨
        ∃ tokens, tokenize options.file source = .ok tokens ∧
          parseTokens options tokens = .error fault := by
  unfold parse
  cases tokenize options.file source <;> simp [bind, Except.bind]

end NixSyntax
