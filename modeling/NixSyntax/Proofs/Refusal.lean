/-
Module: NixSyntax.Proofs.Refusal
Purpose: Runs that yield a value or fail because comparisons are chained, foretold from signs.
Main exports: Parser.Ends, Parser.Gives, Parser.Gives.bind, Parser.expression_gives,
  Parser.continuation_gives, Parser.binary_gives, ParsesTo, parseTokens_gives
-/
import NixSyntax.Proofs.Reread
import NixSyntax.Proofs.Settling

namespace NixSyntax

/-!
The only fault that operators and well-formed operands can lead to is a chain of
comparisons.  What a parser gives from signs is therefore a value or that fault.
A sequence gives what its steps give one after another, like a sequence of
optional values, so the rules keep the shape that they have where they succeed.
-/

namespace Parser

open NixSyntax.Stream

variable {α β : Type} {follow follow' : Kind → Prop} {sign : Sign} {signs signs' : List Sign}
  {outcome : Option α}

/-- The run returns the value and leaves these signs, or fails because comparisons are
chained if there is no value. -/
def Ends (outcome : Option α) (left : List Sign) : EStateM.Result Fault Stream α → Prop
  | .ok value target => outcome = some value ∧ target.Quiet ∧ target.signs = left
  | .error fault _ => outcome = none ∧ ∃ operator, fault.cause = .chained operator

/-- The parser reads tokens with these signs and returns the value, or fails on them
because comparisons are chained if there is no value.  The kind of the token behind
them is as `follow` says. -/
def Gives (follow : Kind → Prop) (parser : Parser α) (signs : List Sign) (outcome : Option α) :
    Prop :=
  ∀ source next rest, source.Quiet → source.signs = signs ++ next :: rest → follow next.kind →
    Ends outcome (next :: rest) (parser source)

theorem Yields.gives {parser : Parser α} {value : α} (yields : Yields follow parser signs value) :
    Gives follow parser signs (Option.some value) := by
  intro source next rest quiet known follows
  obtain ⟨target, run, ends⟩ := yields source next rest quiet known follows
  rw [run]
  exact ⟨rfl, ends⟩

namespace Gives

/-! ## Steps -/

/-- A step that reads nothing may be left out. -/
theorem of_eq {parser parser' : Parser α}
    (same : ∀ source next rest, source.Quiet → source.signs = signs ++ next :: rest →
      follow next.kind → parser source = parser' source)
    (gives : Gives follow parser' signs outcome) : Gives follow parser signs outcome := by
  intro source next rest quiet known follows
  rw [same source next rest quiet known follows]
  exact gives source next rest quiet known follows

/-- Two steps, the second of which starts with what may follow the first. -/
theorem bind {parser : Parser α} {next : α → Parser β} {result : α → Option β}
    (first : Gives follow parser signs outcome)
    (then_gives : ∀ value, outcome = some value →
      Gives follow' (next value) signs' (result value))
    (meets : ∀ kind, follow' kind → follow (Sign.leadKind signs' kind)) :
    Gives follow' (parser >>= next) (signs ++ signs') (outcome.bind result) := by
  intro source after others quiet known follows
  -- The signs behind the first step are those of the second one or what follows it.
  obtain ⟨lead, behind, split, leads⟩ :
      ∃ lead behind, signs' ++ after :: others = lead :: behind ∧ follow lead.kind := by
    cases signs' with
    | nil => exact ⟨after, others, rfl, meets _ follows⟩
    | cons lead signs' => exact ⟨lead, _, rfl, meets _ follows⟩
  rw [List.append_assoc, split] at known
  have begun := first source lead behind quiet known leads
  show Ends _ _ (EStateM.bind parser next source)
  unfold EStateM.bind
  cases run : parser source with
  | ok value middle =>
      rw [run] at begun
      obtain ⟨rfl, quietMiddle, knownMiddle⟩ := begun
      have known := knownMiddle.trans split.symm
      exact then_gives value rfl middle after others quietMiddle known follows
  | error fault middle =>
      rw [run] at begun
      obtain ⟨rfl, chained⟩ := begun
      exact ⟨rfl, chained⟩

/-- A step behind which nothing fails. -/
theorem map {parser : Parser α} {next : α → Parser β} {result : α → β}
    (first : Gives follow parser signs outcome)
    (rest : ∀ value, Yields follow' (next value) signs' (result value))
    (meets : ∀ kind, follow' kind → follow (Sign.leadKind signs' kind)) :
    Gives follow' (parser >>= next) (signs ++ signs') (outcome.map result) := by
  rw [Option.map_eq_bind]
  exact first.bind (fun value _ => (rest value).gives) meets

theorem currentKind {next : Kind → Parser α}
    (rest : Gives follow (next sign.kind) (sign :: signs) outcome) :
    Gives follow (Parser.currentKind >>= next) (sign :: signs) outcome := by
  refine of_eq ?_ rest
  intro source after others _ known _
  rw [currentKind_bind, current_kind known]

theorem advance {next : Token → Parser α}
    (rest : ∀ token, token.sign = sign → Gives follow (next token) signs outcome) :
    Gives follow (Parser.advance >>= next) (sign :: signs) outcome := by
  intro source after others quiet known follows
  have same : source.advance.1.sign = sign := by
    rw [advance_fst]
    exact current_sign known
  obtain ⟨quietNext, knownNext⟩ : source.advance.2.Quiet ∧
      source.advance.2.signs = signs ++ after :: others := by
    cases signs with
    | nil => exact quiet.advance known
    | cons more signs => exact quiet.advance known
  exact rest _ same source.advance.2 after others quietNext knownNext follows

/-- A step that does nothing where there are no comments. -/
theorem idle {step : Parser β} {neutral : β} {next : β → Parser α}
    (idle : ∀ {source : Stream}, source.Quiet → step source = .ok neutral source)
    (rest : Gives follow (next neutral) signs outcome) :
    Gives follow (step >>= next) signs outcome := by
  refine of_eq ?_ rest
  intro source _ _ quiet _ _
  show EStateM.bind step next source = _
  rw [EStateM.bind, idle quiet]

end Gives

/-! ## Rules -/

section Rules

variable {expr : ExprParser} {grammar : Grammar} {limit levels : Nat} {power : Power} {left : Expr}
  {outcome : Option Expr}

theorem group_gives {opening closing : String}
    (read : Gives (· = .parenClose) (expr .base) signs outcome) :
    Gives follow (group expr) (⟨.parenOpen, opening⟩ :: (signs ++ [⟨.parenClose, closing⟩]))
      outcome := by
  apply Gives.advance
  intro _ _
  have same : outcome.map (fun value => value) = outcome := Option.map_id'
  rw [← same]
  refine read.map ?_ fun _ _ => rfl
  intro value
  apply Yields.expect
  intro _ _
  exact .pure value

/-- An operator refuses a right operand behind which an operator of its power stands, if
its power cannot be chained. -/
theorem binary_gives {op : BinaryOp} {word : String} {kind : Kind}
    (read : Gives (· = kind) (expr (if op.groupsRight then power.lower else power)) signs outcome) :
    Gives (· = kind) (binary grammar expr left power) (⟨op.kind, word⟩ :: signs)
      (outcome.bind fun right =>
        if power.isNonAssociative ∧ grammar.power kind = power then none
        else some (.bare (.binary op left right))) := by
  apply Gives.currentKind
  have known : BinaryOp.ofKind? op.kind = some op := by cases op <;> rfl
  simp only [known]
  apply Gives.advance
  intro _ _
  rw [← List.append_nil signs]
  refine read.bind ?_ fun _ follows => follows
  rintro right -
  intro source next rest quiet known follows
  rw [currentKind_bind, current_kind known, follows]
  split
  · exact ⟨rfl, source.current.raw, rfl⟩
  · exact ⟨rfl, quiet, known⟩

/-- An expression starts by a rule and goes on from what the rule gives. -/
theorem expression_gives {rule : StartRule} {result : Expr → Option Expr}
    (start : grammar.start sign.kind = some rule)
    (read : Gives follow (rule.parse (expression grammar limit levels)) (sign :: signs) outcome)
    (rest : ∀ first, outcome = some first →
      Gives follow' (continuation grammar limit levels power first) signs' (result first))
    (meets : ∀ kind, follow' kind → follow (Sign.leadKind signs' kind)) :
    Gives follow' (expression grammar limit (levels + 1) power) (sign :: signs ++ signs')
      (outcome.bind result) := by
  rw [expression]
  apply Gives.idle takeBefore_quiet
  apply Gives.currentKind
  simp only [start]
  apply read.bind _ meets
  intro first known
  apply Gives.idle takeAfter_quiet
  rw [Expr.addBefore_nil, Expr.addAfter_nil]
  exact rest first known

/-- An operator that an expression goes on with takes what was read as its left side. -/
theorem continuation_gives {operatorPower : Power} {rule : JoinRule} {result : Expr → Option Expr}
    (joins : grammar.join sign.kind = some (operatorPower, rule)) (tighter : power < operatorPower)
    (read : Gives follow (rule.parse grammar (expression grammar limit levels) left operatorPower)
      (sign :: signs) outcome)
    (rest : ∀ node, outcome = some node →
      Gives follow' (continuation grammar limit levels power node) signs' (result node))
    (meets : ∀ kind, follow' kind → follow (Sign.leadKind signs' kind)) :
    Gives follow' (continuation grammar limit (levels + 1) power left) (sign :: signs ++ signs')
      (outcome.bind result) := by
  rw [continuation]
  apply Gives.currentKind
  simp only [joins, if_pos tighter]
  apply read.bind _ meets
  intro node known
  apply Gives.idle takeAfter_quiet
  rw [Expr.addAfter_nil]
  exact rest node known

end Rules

/-! ## Whole token streams -/

/-- A document is the expression that its tokens give. -/
theorem document_gives {grammar : Grammar} {limit : Nat} {outcome : Option Expr}
    (gives : Gives (· = .endOfInput) (expression grammar limit limit .base) signs outcome) :
    Gives (· = .endOfInput) (document grammar limit) signs
      (outcome.map fun value => { before := [], value, after := [] }) := by
  apply Gives.idle takeDetached_quiet
  rw [← List.append_nil signs]
  apply gives.map _ fun _ follows => follows
  intro value
  apply Yields.currentKind_lead
  rintro kind rfl
  rw [Sign.leadKind_nil, if_pos rfl]
  exact .takeBefore (.pure _)

end Parser

/-- The tokens are parsed to the value, or refused because comparisons are chained if
there is none. -/
def ParsesTo (options : Options) (tokens : List Token) : Option Expr → Prop
  | some value => parseTokens options tokens = .ok { before := [], value, after := [] }
  | none => ∃ operator position,
      parseTokens options tokens = .error { cause := .chained operator, position }

/-- Tokens without comments are parsed to what they give. -/
theorem parseTokens_gives {options : Options} {tokens : List Token} {signs : List Sign}
    {outcome : Option Expr} (quiet : ∀ token ∈ tokens, token.Quiet)
    (known : Sign.completed (tokens.map Token.sign) = signs ++ [.endOfInput])
    (gives : Parser.Gives (· = .endOfInput)
      (Parser.expression (.standard options.fallback) options.maxDepth options.maxDepth .base)
      signs outcome) : ParsesTo options tokens outcome := by
  have complete : (Stream.ofTokens options.file tokens).signs = signs ++ [.endOfInput] := by
    rw [Stream.signs_ofTokens, known]
  have ends := Parser.document_gives gives _ _ _ (Stream.quiet_ofTokens options.file quiet) complete
    rfl
  cases run : Parser.document (.standard options.fallback) options.maxDepth
      (.ofTokens options.file tokens) with
  | ok document target =>
      rw [run] at ends
      obtain ⟨value, rfl, rfl⟩ := Option.map_eq_some_iff.1 ends.1
      exact parseTokens_ok.2 ⟨target, run⟩
  | error fault target =>
      rw [run] at ends
      obtain ⟨absent, operator, chained⟩ := ends
      obtain rfl := Option.map_eq_none_iff.1 absent
      refine ⟨operator, fault.position, ?_⟩
      rw [parseTokens, run, ← chained]

end NixSyntax
