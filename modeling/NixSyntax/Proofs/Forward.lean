/-
Module: NixSyntax.Proofs.Forward
Purpose: The signs that each rule reads, and what it yields from them.
Main exports: one lemma for each rule that a printed text needs, Parser.expression_yields,
  Parser.continuation_stops, Parser.continuation_joins
-/
import NixSyntax.Proofs.Inversion
import NixSyntax.Proofs.Scanning
import NixSyntax.Proofs.Spelling
import NixSyntax.Proofs.Yield

namespace NixSyntax

/-!
The lemmas here run the rules forwards: they say which tokens a rule is to be
given for a certain result.  What a rule looks at behind its last token becomes
a condition on the kind of the token there.
-/

@[simp] theorem Expr.addAfter_nil (value : Expr) : value.addAfter [] = value := by
  cases value
  simp [addAfter]

@[simp] theorem Expr.addBefore_nil (value : Expr) : value.addBefore [] = value := by
  cases value
  simp [addBefore]

namespace Parser

variable {follow follow' : Kind → Prop} {expr : ExprParser} {signs signs' signs'' : List Sign}
  {value : Expr}

/-! ## Strings and attribute paths -/

theorem interpolated_yields (inner : Yields (· = .interpClose) (expr .base) signs value) :
    Yields follow (interpolated expr) (.mark .interpOpen :: (signs ++ [.mark .interpClose]))
      value := by
  apply Yields.expect
  intro _ _
  apply inner.bind _ fun _ _ => rfl
  apply Yields.expect
  intro _ _
  exact .pure value

theorem stringPart_literal (text : String) {close : Kind} :
    Yields follow (stringPart expr close) [⟨.fragment, text⟩] (some (.literal text)) := by
  apply Yields.currentKind
  apply Yields.advance
  intro token same
  obtain rfl : token.value = text := congrArg Sign.value same
  exact .pure _

theorem stringPart_interpolated {close : Kind}
    (inner : Yields (· = .interpClose) (expr .base) signs value) :
    Yields follow (stringPart expr close) (.mark .interpOpen :: (signs ++ [.mark .interpClose]))
      (some (.interpolated value)) := by
  apply Yields.currentKind
  rw [← List.append_nil (Sign.mark Kind.interpOpen :: (signs ++ [Sign.mark Kind.interpClose]))]
  apply (interpolated_yields inner).bind _ fun _ follows => follows
  exact .pure _

theorem stringPart_stops :
    Yields (· = .quoteClose) (stringPart expr .quoteClose) [] none := by
  apply Yields.currentKind_lead
  rintro kind rfl
  exact .pure none

theorem stringLiteral_yields {parts : List StringPart}
    (inner : YieldsMany (· = .quoteClose) (stringPart expr .quoteClose) signs parts) :
    Yields follow (stringLiteral expr) (.mark .quoteOpen :: (signs ++ [.mark .quoteClose]))
      (false, parts) := by
  apply Yields.expectOneOf (by decide)
  intro opening same
  have kind : (opening.kind == Kind.indentOpen) = false := by
    rw [show opening.kind = .quoteOpen from congrArg Sign.kind same]
    rfl
  rw [kind]
  apply inner.many.bind _ fun _ _ => rfl
  apply Yields.advance
  intro _ _
  exact .pure (false, parts)

theorem segment_name {kind : Kind} (word : kind ∈ [Kind.identifier, .kwOr]) (text : String) :
    Yields follow (segment expr) [⟨kind, text⟩] (.name text) := by
  apply Yields.currentKind
  simp only [List.mem_cons, List.not_mem_nil, or_false] at word
  rcases word with rfl | rfl
  · apply Yields.advance
    intro token same
    obtain rfl : token.value = text := congrArg Sign.value same
    exact .pure _
  · apply Yields.advance
    intro token same
    obtain rfl : token.value = text := congrArg Sign.value same
    exact .pure _

theorem segment_computed (inner : Yields (· = .interpClose) (expr .base) signs value) :
    Yields follow (segment expr) (.mark .interpOpen :: (signs ++ [.mark .interpClose]))
      (.computed value) := by
  apply Yields.currentKind
  rw [← List.append_nil (Sign.mark Kind.interpOpen :: (signs ++ [Sign.mark Kind.interpClose]))]
  apply (interpolated_yields inner).bind _ fun _ follows => follows
  exact .pure _

theorem segment_quoted {parts : List StringPart}
    (inner : YieldsMany (· = .quoteClose) (stringPart expr .quoteClose) signs parts) :
    Yields follow (segment expr) (.mark .quoteOpen :: (signs ++ [.mark .quoteClose]))
      (.quoted parts) := by
  apply Yields.currentKind
  rw [← List.append_nil (Sign.mark Kind.quoteOpen :: (signs ++ [Sign.mark Kind.quoteClose]))]
  apply (stringLiteral_yields inner).bind _ fun _ follows => follows
  exact .pure _

theorem dottedSegment_yields {found : Segment} (read : Yields follow (segment expr) signs found) :
    Yields follow (dottedSegment expr) (.mark .dot :: signs) (some found) := by
  apply Yields.skip
  exact read.some

theorem dottedSegment_stops : Yields (· ≠ .dot) (dottedSegment expr) [] none := by
  apply Yields.skip_other fun _ follows => follows
  exact .pure none

theorem attrPath_yields {first : Segment} {others : List Segment}
    (read : Yields (fun _ => True) (segment expr) signs first)
    (readOthers : YieldsMany follow (dottedSegment expr) signs' others) :
    Yields follow (attrPath expr) (signs ++ signs') (first :: others) := by
  apply read.bind _ fun _ _ => trivial
  rw [← List.append_nil signs']
  apply readOthers.many.bind _ fun _ follows => follows
  exact .pure _

/-! ## Entries of sets and of `let` -/

theorem assignment_yields {path : List Segment}
    (readPath : Yields (· = .assign) (attrPath expr) signs path)
    (read : Yields (· = .semicolon) (expr .base) signs' value) :
    Yields follow (assignment expr [])
      (signs ++ .mark .assign :: (signs' ++ [.mark .semicolon])) (.assign path value []) := by
  apply readPath.bind _ fun _ _ => rfl
  apply Yields.expect
  intro _ _
  apply read.bind _ fun _ _ => rfl
  apply Yields.expect
  intro _ _
  apply Yields.takeUnclaimed
  rw [Expr.addAfter_nil]
  exact .pure _

theorem inheritSource_yields (read : Yields (· = .parenClose) (expr .base) signs value) :
    Yields follow (inheritSource expr) (.mark .parenOpen :: (signs ++ [.mark .parenClose]))
      (some value) := by
  apply Yields.skip
  apply read.bind _ fun _ _ => rfl
  apply Yields.expect
  intro _ _
  exact .pure _

theorem inheritSource_none : Yields (· ≠ .parenOpen) (inheritSource expr) [] none := by
  apply Yields.skip_other fun _ follows => follows
  exact .pure none

theorem inheritedName_yields {found : Segment}
    (read : Yields follow (segment expr) signs found)
    (other : ∀ kind, Sign.leadKind signs kind ≠ .semicolon) :
    Yields follow (inheritedName expr) signs (some found) := by
  apply Yields.currentKind_lead
  intro kind follows
  rw [if_neg (other kind)]
  exact (read.known follows).some

theorem inheritedName_stops : Yields (· = .semicolon) (inheritedName expr) [] none := by
  apply Yields.currentKind_lead
  rintro kind rfl
  exact .pure none

theorem inheritance_yields {source : Option Expr} {first : Segment} {others : List Segment}
    (readSource : Yields (· ≠ .parenOpen) (inheritSource expr) signs source)
    (read : Yields (fun _ => True) (segment expr) signs' first)
    (other : ∀ kind, Sign.leadKind signs' kind ≠ .parenOpen)
    (readOthers : YieldsMany (· = .semicolon) (inheritedName expr) signs'' others) :
    Yields follow (inheritance expr [])
      (.mark .kwInherit :: (signs ++ (signs' ++ (signs'' ++ [.mark .semicolon]))))
      (.inherit source (first :: others) []) := by
  apply Yields.expect
  intro _ _
  apply readSource.bind _ fun kind _ => by
    rw [Sign.leadKind_append]
    exact other _
  apply read.bind _ fun _ _ => trivial
  apply readOthers.many.bind _ fun _ _ => rfl
  apply Yields.advance
  intro _ _
  apply Yields.takeUnclaimed
  exact .pure _

/-- An entry that starts with an attribute path. -/
theorem binding_assigns {entry : Binding} {close : Kind}
    (read : Yields follow (assignment expr []) signs entry)
    (start : ∀ kind, Sign.leadKind signs kind ∈ [Kind.identifier, .interpOpen, .quoteOpen])
    (other : close ∈ [Kind.curlyClose, .kwIn]) :
    Yields follow (binding expr close) signs (some entry) := by
  apply Yields.currentKind_lead
  intro kind follows
  have known : ∀ kind ∈ [Kind.identifier, .interpOpen, .quoteOpen],
      ∀ close ∈ [Kind.curlyClose, .kwIn], kind ≠ close ∧ kind ∈ Kind.bindingStart ∧
        kind ≠ .kwInherit := by
    decide
  obtain ⟨open_, starts, assigns⟩ := known _ (start kind) _ other
  rw [if_neg open_, if_pos starts]
  apply Yields.takeBefore
  rw [if_neg assigns]
  exact (read.known follows).some

/-- An entry that inherits. -/
theorem binding_inherits {entry : Binding} {close : Kind}
    (read : Yields follow (inheritance expr []) (.mark .kwInherit :: signs) entry)
    (other : close ∈ [Kind.curlyClose, .kwIn]) :
    Yields follow (binding expr close) (.mark .kwInherit :: signs) (some entry) := by
  apply Yields.currentKind
  have open_ : ∀ close ∈ [Kind.curlyClose, .kwIn], Kind.kwInherit ≠ close := by decide
  show Yields follow (if Kind.kwInherit = close then _ else _) _ _
  rw [if_neg (open_ close other)]
  apply Yields.takeBefore
  exact read.some

theorem binding_stops (close : Kind) : Yields (· = close) (binding expr close) [] none := by
  apply Yields.currentKind_lead
  rintro kind rfl
  rw [if_pos (Sign.leadKind_nil kind)]
  exact .pure none

theorem bindings_yields {entries : List Binding} {close : Kind}
    (read : YieldsMany (· = close) (binding expr close) signs entries) :
    Yields (· = close) (bindings expr close) signs (entries, []) := by
  rw [← List.append_nil signs]
  apply read.many.bind _ fun _ follows => follows
  apply Yields.takeBefore
  exact .pure _

theorem attrs_yields {entries : List Binding} (recursive : Bool)
    (read : YieldsMany (· = .curlyClose) (binding expr .curlyClose) signs entries) :
    Yields follow (attrs expr recursive) (.mark .curlyOpen :: (signs ++ [.mark .curlyClose]))
      (.bare (.attrs recursive entries [])) := by
  apply Yields.expect
  intro _ _
  apply (bindings_yields read).bind _ fun _ _ => rfl
  apply Yields.expect
  intro _ _
  exact .pure _

theorem letIn_yields {entries : List Binding} {body : Expr}
    (read : YieldsMany (· = .kwIn) (binding expr .kwIn) signs entries)
    (entry : ∀ kind, kind = .kwIn → Sign.leadKind signs kind ≠ .curlyOpen)
    (readBody : Yields follow (expr .base) signs' body) :
    Yields follow (letIn expr) (.mark .kwLet :: (signs ++ .mark .kwIn :: signs'))
      (.bare (.letIn entries [] body)) := by
  apply Yields.expect
  intro _ _
  apply Yields.currentKind_lead
  intro kind follows
  rw [if_neg]
  · apply (bindings_yields read).bind _ fun _ _ => rfl
    dsimp only
    apply Yields.expect
    intro _ _
    rw [← List.append_nil signs']
    apply (readBody.known follows).bind _ fun _ follows => follows
    exact .pure _
  · rw [Sign.leadKind_append, Sign.leadKind_cons]
    exact entry _ rfl

theorem recursiveAttrs_yields {entries : List Binding}
    (read : YieldsMany (· = .curlyClose) (binding expr .curlyClose) signs entries) :
    Yields follow (recursiveAttrs expr)
      (.mark .kwRec :: .mark .curlyOpen :: (signs ++ [.mark .curlyClose]))
      (.bare (.attrs true entries [])) := by
  apply Yields.expect
  intro _ _
  exact attrs_yields true read

/-! ## Functions -/

theorem paramDefault_yields (read : Yields follow (expr .base) signs value) :
    Yields follow (paramDefault expr) (.mark .question :: signs) (some value) := by
  apply Yields.skip
  exact read.some

theorem paramDefault_none : Yields (· ≠ .question) (paramDefault expr) [] none := by
  apply Yields.skip_other fun _ follows => follows
  exact .pure none

/-- A parameter with a comma. -/
theorem param_yields {name : String} {default : Option Expr}
    (read : Yields (· = .comma) (paramDefault expr) signs default) :
    Yields follow (param expr) (⟨.identifier, name⟩ :: (signs ++ [.mark .comma]))
      { name, default, margin := {} } := by
  apply Yields.takeBefore
  apply Yields.expect
  intro token same
  obtain rfl : token.value = name := congrArg Sign.value same
  apply read.bind _ fun _ _ => rfl
  apply Yields.skip
  apply Yields.takeUnclaimed
  exact .pure _

/-- The last parameter, which needs no comma. -/
theorem param_last {name : String} {default : Option Expr}
    (read : Yields (· = .curlyClose) (paramDefault expr) signs default) :
    Yields (· = .curlyClose) (param expr) (⟨.identifier, name⟩ :: signs)
      { name, default, margin := {} } := by
  apply Yields.takeBefore
  apply Yields.expect
  intro token same
  obtain rfl : token.value = name := congrArg Sign.value same
  rw [← List.append_nil signs]
  apply read.bind _ fun _ follows => follows
  apply Yields.skip_other (by rintro _ rfl; decide)
  apply Yields.currentKind_lead
  rintro kind rfl
  apply Yields.takeUnclaimed
  exact .pure _

theorem nextParam_yields {found : Param} {name : String}
    (read : Yields follow (param expr) (⟨.identifier, name⟩ :: signs) found) :
    Yields follow (nextParam expr) (⟨.identifier, name⟩ :: signs) (some found) := by
  apply Yields.currentKind
  exact read.some

theorem nextParam_stops :
    Yields (· ∈ [Kind.curlyClose, .ellipsis]) (nextParam expr) [] none := by
  apply Yields.currentKind_lead
  intro kind follows
  simp only [List.mem_cons, List.not_mem_nil, or_false] at follows
  rcases follows with rfl | rfl <;> exact .pure none

/-- The parameters of a closed pattern. -/
theorem pattern_yields {params : List Param}
    (read : YieldsMany (· = .curlyClose) (nextParam expr) signs params) :
    Yields follow (Parser.pattern expr) (.mark .curlyOpen :: (signs ++ [.mark .curlyClose]))
      { params, isOpen := false, inner := [] } := by
  apply Yields.expect
  intro _ _
  apply read.many.bind _ fun _ _ => rfl
  apply Yields.skip_other (by simp [Sign.mark])
  apply Yields.takeBefore
  apply Yields.expect
  intro _ _
  exact .pure _

/-- The parameters of an open pattern. -/
theorem pattern_open {params : List Param}
    (read : YieldsMany (· = .ellipsis) (nextParam expr) signs params) :
    Yields follow (Parser.pattern expr)
      (.mark .curlyOpen :: (signs ++ [.mark .ellipsis, .mark .curlyClose]))
      { params, isOpen := true, inner := [] } := by
  apply Yields.expect
  intro _ _
  apply read.many.bind _ fun _ _ => rfl
  apply Yields.skip
  apply Yields.takeBefore
  apply Yields.expect
  intro _ _
  exact .pure _

theorem wholeBefore_yields (name : String) :
    Yields follow wholeBefore [⟨.identifier, name⟩, .mark .atSign] (some name) := by
  apply Yields.currentKind
  apply Yields.advance
  intro token same
  obtain rfl : token.value = name := congrArg Sign.value same
  apply Yields.expect
  intro _ _
  exact .pure _

theorem wholeBefore_none : Yields (· ≠ .identifier) wholeBefore [] none := by
  apply Yields.currentKind_lead
  intro kind follows
  rw [Sign.leadKind_nil, if_neg follows]
  exact .pure none

theorem wholeAfter_none {whole : Option String} :
    Yields (· ≠ .atSign) (wholeAfter whole) [] whole := by
  apply Yields.currentKind_lead
  intro kind follows
  rw [Sign.leadKind_nil, if_neg follows]
  exact .pure whole

/-- A function of a set, with the name of the whole set in front if it has
one. -/
theorem patternLambda_yields {whole : Option String} {pattern : Pattern} {body : Expr}
    (readWhole : Yields (· = .curlyOpen) wholeBefore signs whole)
    (read : Yields (· = .colon) (Parser.pattern expr) (.mark .curlyOpen :: signs') pattern)
    (readBody : Yields follow (expr .base) signs'' body) :
    Yields follow (patternLambda expr)
      (signs ++ (.mark .curlyOpen :: signs' ++ .mark .colon :: signs''))
      (.bare (.patternLambda pattern.params pattern.isOpen whole pattern.inner body)) := by
  apply readWhole.bind _ fun _ _ => rfl
  apply read.bind _ fun _ _ => rfl
  rw [← List.nil_append (Sign.mark Kind.colon :: signs'')]
  apply wholeAfter_none.bind _ (by simp [Sign.mark])
  apply Yields.expect
  intro _ _
  rw [← List.append_nil signs'']
  apply readBody.bind _ fun _ follows => follows
  exact .pure _

theorem namedLambda_yields {name : String} {body : Expr}
    (readBody : Yields follow (expr .base) signs body) :
    Yields follow (namedLambda expr) (⟨.identifier, name⟩ :: .mark .colon :: signs)
      (.bare (.lambda name body)) := by
  apply Yields.advance
  intro token same
  obtain rfl : token.value = name := congrArg Sign.value same
  apply Yields.expect
  intro _ _
  rw [← List.append_nil signs]
  apply readBody.bind _ fun _ follows => follows
  exact .pure _

/-- A name with a colon or an at sign behind it starts a function. -/
theorem name_lambda {sign : Sign} (read : Yields follow (lambda expr) (sign :: signs) value)
    (ahead : ∀ kind, follow kind → Sign.leadKind signs kind ∈ [Kind.colon, .atSign]) :
    Yields follow (name expr) (sign :: signs) value := by
  apply Yields.peekKind_one
  intro kind follows
  have listed := ahead kind follows
  simp only [List.mem_cons, List.not_mem_nil, or_false] at listed
  rcases listed with same | same <;> rw [same] <;> exact read.known follows

theorem name_path {sign : Sign} {path : List Segment}
    (read : Yields follow (attrPath expr) (sign :: signs) path)
    (ahead : ∀ kind, follow kind → Sign.leadKind signs kind ∉ [Kind.colon, .atSign]) :
    Yields follow (name expr) (sign :: signs) (.bare (.name path)) := by
  apply Yields.peekKind_one
  intro kind follows
  have other := ahead kind follows
  split
  · next same => exact absurd (by simp [same]) other
  · next same => exact absurd (by simp [same]) other
  · rw [← List.append_nil (sign :: signs)]
    apply (read.known follows).bind _ fun _ follows => follows
    exact .pure _

theorem lambda_named {name : String} {body : Expr}
    (readBody : Yields follow (expr .base) signs body) :
    Yields follow (lambda expr) (⟨.identifier, name⟩ :: .mark .colon :: signs)
      (.bare (.lambda name body)) := by
  apply Yields.currentKind
  apply Yields.peekKind_one
  intro kind follows
  exact (namedLambda_yields readBody).known follows

theorem lambda_pattern {sign : Sign}
    (read : Yields follow (patternLambda expr) (sign :: signs) value)
    (other : sign.kind = .identifier → ∀ kind, follow kind → Sign.leadKind signs kind ≠ .colon) :
    Yields follow (lambda expr) (sign :: signs) value := by
  apply Yields.currentKind
  apply Yields.peekKind_one
  intro kind follows
  rw [if_neg fun both => other both.1 kind follows both.2]
  exact read.known follows

/-- Whether parameters start with these kinds, behind a brace. -/
def opensPattern : List Kind → Bool
  | .ellipsis :: _ => true
  | .curlyClose :: next :: _ => followsPattern next
  | .identifier :: .comma :: _ => true
  | .identifier :: .question :: _ => true
  | .identifier :: .curlyClose :: next :: _ => followsPattern next
  | _ => false

theorem startsPattern_opens {stream : Stream} (brace : stream.current.kind = .curlyOpen) :
    startsPattern stream = opensPattern (stream.upcoming.map Token.kind) := by
  obtain ⟨current, upcoming, unclaimed⟩ := stream
  unfold startsPattern
  match upcoming with
  | [] =>
      dsimp only at brace
      simp [Stream.peek, opensPattern, brace]
  | [a] => cases kind : a.kind <;> simp [Stream.peek, opensPattern, kind, followsPattern]
  | [a, b] =>
      cases kind : a.kind <;> simp [Stream.peek, opensPattern, kind, followsPattern]
      cases b.kind <;> rfl
  | a :: b :: c :: rest =>
      cases kind : a.kind <;> simp [Stream.peek, opensPattern, kind]
      cases b.kind <;> rfl

theorem startsPattern_signs {stream : Stream} {after : Sign} {others : List Sign}
    (known : stream.signs = .mark .curlyOpen :: signs ++ after :: others) :
    startsPattern stream =
      opensPattern (signs.map Sign.kind ++ after.kind :: others.map Sign.kind) := by
  have ahead : stream.upcoming.map Token.kind =
      signs.map Sign.kind ++ after.kind :: others.map Sign.kind := by
    have kinds := congrArg (List.map Sign.kind) (List.cons.inj known).2
    simpa [Token.sign, Function.comp_def] using kinds
  rw [startsPattern_opens (Stream.current_kind known), ahead]

/-- Braces start a set, if the kinds behind the first one say so. -/
theorem braces_attrs (read : Yields follow (attrs expr false) (.mark .curlyOpen :: signs) value)
    (tells : ∀ kind others, follow kind →
      opensPattern (signs.map Sign.kind ++ kind :: others) = false) :
    Yields follow (braces expr) (.mark .curlyOpen :: signs) value := by
  apply Yields.get
  intro stream after others known follows
  rw [startsPattern_signs known, tells _ _ follows, if_neg Bool.false_ne_true]
  exact read

/-- Braces start a function, if the kinds behind the first one say so. -/
theorem braces_lambda (read : Yields follow (lambda expr) (.mark .curlyOpen :: signs) value)
    (tells : ∀ kind others, follow kind →
      opensPattern (signs.map Sign.kind ++ kind :: others) = true) :
    Yields follow (braces expr) (.mark .curlyOpen :: signs) value := by
  apply Yields.get
  intro stream after others known follows
  rw [startsPattern_signs known, tells _ _ follows, if_pos rfl]
  exact read

/-! ## Start rules -/

theorem literal_yields {sign : Sign} {form : Form}
    (known : ∀ token : Token, token.sign = sign → token.literal? = some form) :
    Yields follow literal [sign] (.bare form) := by
  intro source next rest quiet signs follows
  obtain ⟨quietNext, knownNext⟩ := quiet.advance signs
  exact ⟨_, literal_ok.2 ⟨form, known _ (Stream.current_sign signs), rfl, rfl⟩, quietNext,
    knownNext⟩

theorem string_yields {parts : List StringPart}
    (inner : YieldsMany (· = .quoteClose) (stringPart expr .quoteClose) signs parts) :
    Yields follow (string expr) (.mark .quoteOpen :: (signs ++ [.mark .quoteClose]))
      (.bare (.string false parts)) := by
  rw [← List.append_nil (Sign.mark Kind.quoteOpen :: (signs ++ [Sign.mark Kind.quoteClose]))]
  apply (stringLiteral_yields inner).bind _ fun _ follows => follows
  exact .pure _

theorem group_yields (read : Yields (· = .parenClose) (expr .base) signs value) :
    Yields follow (group expr) (.mark .parenOpen :: (signs ++ [.mark .parenClose])) value := by
  apply Yields.advance
  intro _ _
  apply read.bind _ fun _ _ => rfl
  apply Yields.expect
  intro _ _
  exact .pure _

theorem element_yields (read : Yields follow (expr .application) signs value)
    (other : ∀ kind, Sign.leadKind signs kind ∉ [Kind.bracketClose, .endOfInput]) :
    Yields follow (element expr) signs (some value) := by
  apply Yields.currentKind_lead
  intro kind follows
  have differs := other kind
  split
  · next same => exact absurd (by simp [same]) differs
  · next same => exact absurd (by simp [same]) differs
  · exact (read.known follows).some

theorem element_stops : Yields (· = .bracketClose) (element expr) [] none := by
  apply Yields.currentKind_lead
  rintro kind rfl
  exact .pure none

theorem list_yields {elements : List Expr}
    (read : YieldsMany (· = .bracketClose) (element expr) signs elements) :
    Yields follow (list expr) (.mark .bracketOpen :: (signs ++ [.mark .bracketClose]))
      (.bare (.list elements [])) := by
  apply Yields.advance
  intro _ _
  apply read.many.bind _ fun _ _ => rfl
  apply Yields.takeBefore
  apply Yields.advance
  intro _ _
  exact .pure _

theorem importing_yields (read : Yields follow (expr .application) signs value) :
    Yields follow (importing expr) (.mark .kwImport :: signs) (.bare (.importing value)) := by
  apply Yields.advance
  intro _ _
  rw [← List.append_nil signs]
  apply read.bind _ fun _ follows => follows
  exact .pure _

theorem unary_negate (read : Yields follow (expr .unary) signs value) :
    Yields follow (unary expr) (.mark .dash :: signs) (.bare (.unary .negate value)) := by
  apply Yields.advance
  intro token same
  have kind : token.kind = .dash := congrArg Sign.kind same
  rw [if_neg (by rw [kind]; decide)]
  rw [← List.append_nil signs]
  apply read.bind _ fun _ follows => follows
  exact .pure _

theorem unary_not (read : Yields follow (expr .not) signs value) :
    Yields follow (unary expr) (.mark .not :: signs) (.bare (.unary .not value)) := by
  apply Yields.advance
  intro token same
  have kind : token.kind = .not := congrArg Sign.kind same
  rw [if_pos kind]
  rw [← List.append_nil signs]
  apply read.bind _ fun _ follows => follows
  exact .pure _

theorem conditional_yields {condition yes no : Expr}
    (readCondition : Yields (· = .kwThen) (expr .base) signs condition)
    (readYes : Yields (· = .kwElse) (expr .base) signs' yes)
    (readNo : Yields follow (expr .base) signs'' no) :
    Yields follow (conditional expr)
      (.mark .kwIf :: (signs ++ .mark .kwThen :: (signs' ++ .mark .kwElse :: signs'')))
      (.bare (.conditional condition yes no)) := by
  apply Yields.advance
  intro _ _
  apply readCondition.bind _ fun _ _ => rfl
  apply Yields.expect
  intro _ _
  apply readYes.bind _ fun _ _ => rfl
  apply Yields.expect
  intro _ _
  rw [← List.append_nil signs'']
  apply readNo.bind _ fun _ follows => follows
  exact .pure _

theorem clause_yields {kind : ClauseKind} {subject body : Expr}
    (read : Yields (· = .semicolon) (expr .base) signs subject)
    (readBody : Yields follow (expr .base) signs' body) :
    Yields follow (clause expr) (.mark kind.kind :: (signs ++ .mark .semicolon :: signs'))
      (body.addClause { kind, subject }) := by
  apply Yields.advance
  intro token same
  have word : token.kind = kind.kind := congrArg Sign.kind same
  apply read.bind _ fun _ _ => rfl
  apply Yields.expect
  intro _ _
  apply Yields.takeUnclaimed
  have known : (if token.kind = .kwAssert then ClauseKind.assertion else .scope) = kind := by
    rw [word]
    cases kind <;> rfl
  rw [known, Expr.addAfter_nil, ← List.append_nil signs']
  apply readBody.bind _ fun _ follows => follows
  exact .pure _

/-! ## Join rules -/

section Joins

variable {left : Expr}

/-- An operator that may be chained, or that nothing of its power follows. -/
theorem binary_yields {grammar : Grammar} {op : BinaryOp} {power : Power} {right : Expr}
    (read : Yields follow (expr (if op.groupsRight then power.lower else power)) signs right)
    (single : ∀ kind, follow kind → power.isNonAssociative = true → grammar.power kind ≠ power) :
    Yields follow (binary grammar expr left power) (.mark op.kind :: signs)
      (.bare (.binary op left right)) := by
  apply Yields.currentKind
  have known : BinaryOp.ofKind? op.kind = some op := by cases op <;> rfl
  simp only [Sign.mark, known]
  apply Yields.advance
  intro _ _
  rw [← List.append_nil signs]
  apply read.bind _ fun _ follows => follows
  apply Yields.currentKind_lead
  intro kind follows
  rw [if_neg fun both => single kind follows both.1 both.2]
  exact .pure _

theorem hasAttr_yields {path : List Segment} (read : Yields follow (attrPath expr) signs path) :
    Yields follow (hasAttr expr left) (.mark .question :: signs) (.bare (.hasAttr left path)) := by
  apply Yields.advance
  intro _ _
  rw [← List.append_nil signs]
  apply read.bind _ fun _ follows => follows
  exact .pure _

theorem select_yields {path : List Segment} (read : Yields follow (attrPath expr) signs path) :
    Yields follow (select expr left) (.mark .dot :: signs) (.bare (.select left path)) := by
  apply Yields.advance
  intro _ _
  rw [← List.append_nil signs]
  apply read.bind _ fun _ follows => follows
  exact .pure _

theorem argument_yields (read : Yields follow (expr .application) signs value)
    (start : ∀ kind, Sign.leadKind signs kind ∈ Kind.argumentStart) :
    Yields follow (argument expr) signs (some value) := by
  apply Yields.currentKind_lead
  intro kind follows
  rw [if_pos (start kind)]
  exact (read.known follows).some

theorem argument_stops : Yields (· ∉ Kind.argumentStart) (argument expr) [] none := by
  apply Yields.currentKind_lead
  intro kind follows
  rw [Sign.leadKind_nil, if_neg follows]
  exact .pure none

theorem apply_yields {arguments : List Expr}
    (read : YieldsMany follow (argument expr) signs arguments) :
    Yields follow (apply expr left) signs (.bare (.apply left arguments)) := by
  rw [← List.append_nil signs]
  apply read.many.bind _ fun _ follows => follows
  exact .pure _

end Joins

/-! ## Whole expressions -/

section Expressions

variable {grammar : Grammar} {limit levels : Nat} {power : Power}

/-- An expression starts by a rule and goes on from what the rule yields. -/
theorem expression_yields {sign : Sign} {rule : StartRule} {first : Expr}
    (start : grammar.start sign.kind = some rule)
    (read : Yields follow (rule.parse (expression grammar limit levels)) (sign :: signs) first)
    (rest : Yields follow' (continuation grammar limit levels power first) signs' value)
    (meets : ∀ kind, follow' kind → follow (Sign.leadKind signs' kind)) :
    Yields follow' (expression grammar limit (levels + 1) power) (sign :: signs ++ signs')
      value := by
  rw [expression]
  apply Yields.takeBefore
  apply Yields.currentKind
  simp only [start]
  apply read.bind _ meets
  apply Yields.takeAfter
  rw [Expr.addBefore_nil, Expr.addAfter_nil]
  exact rest

/-- Nothing goes on in front of a token that binds no tighter. -/
theorem continuation_stops (left : Expr) :
    Yields (fun kind => ¬ power < grammar.power kind)
      (continuation grammar limit levels power left) [] left := by
  intro source next rest quiet known follows
  have kind : source.current.kind = next.kind := Stream.current_kind known
  exact ⟨source, continuation_ok.2 (.inl ⟨kind ▸ follows, rfl, rfl⟩), quiet, known⟩

/-- Each operator that an expression goes on with takes one level. -/
theorem continuation_joins {sign : Sign} {left node : Expr} {operatorPower : Power}
    {rule : JoinRule} (joins : grammar.join sign.kind = some (operatorPower, rule))
    (tighter : power < operatorPower)
    (read : Yields follow (rule.parse grammar (expression grammar limit levels) left operatorPower)
      (sign :: signs) node)
    (rest : Yields follow' (continuation grammar limit levels power node) signs' value)
    (meets : ∀ kind, follow' kind → follow (Sign.leadKind signs' kind)) :
    Yields follow' (continuation grammar limit (levels + 1) power left) (sign :: signs ++ signs')
      value := by
  rw [continuation]
  apply Yields.currentKind
  simp only [joins, if_pos tighter]
  apply read.bind _ meets
  apply Yields.takeAfter
  rw [Expr.addAfter_nil]
  exact rest

end Expressions

end Parser

end NixSyntax
