/-
Module: NixSyntax.Proofs.Chains
Purpose: Chains of operators are parsed to the tree that the ladder of precedence prescribes.
Main exports: Operand, Chain, Chain.value, continuation_steps, parseTokens_chain
-/
import Mathlib
import NixSyntax.Proofs.Precedence
import NixSyntax.Proofs.Refusal

namespace NixSyntax

/-!
A chain is read from front to back.  The right operand of its first operator is
itself a chain, of the operators that bind tighter, and what comes behind goes on
from there.  Both are shorter than the whole, so that the induction runs over the
number of operators, and `prescribe_cons` says that the trees fit together.
Operands in parentheses are chains of their own, for which the syntax below has an
induction too.
-/

/-! ## Chains as tokens -/

/-- What a token stands for that is an operand by itself: a number, a constant, a path
or a name. -/
def Sign.alone? (sign : Sign) : Option Form :=
  match sign.kind with
  | .int => (readInteger sign.value).map .int
  | .float => (readFloat sign.value).map .float
  | .kwTrue => some (.bool true)
  | .kwFalse => some (.bool false)
  | .kwNull => some .null
  | .path => some (.path sign.value)
  | .identifier => some (.name [.name sign.value])
  | _ => none

mutual

/-- An operand of a chain: a single token, or a chain in parentheses. -/
inductive Operand where
  | single (sign : Sign) (form : Form) (stands : sign.alone? = some form)
  | group (opening closing : String) (chain : Chain)

/-- Operands with an operator between each and the next one. -/
inductive Chain where
  | last (operand : Operand)
  | link (operand : Operand) (op : BinaryOp) (word : String) (rest : Chain)

end

mutual

/-- The tokens of an operand. -/
def Operand.signs : Operand → List Sign
  | .single sign _ _ => [sign]
  | .group opening closing chain =>
    ⟨.parenOpen, opening⟩ :: (chain.signs ++ [⟨.parenClose, closing⟩])

/-- The tokens of a chain. -/
def Chain.signs : Chain → List Sign
  | .last operand => operand.signs
  | .link operand op word rest => operand.signs ++ ⟨op.kind, word⟩ :: rest.signs

end

mutual

/-- The tree of an operand, if it has one. -/
def Operand.value (level : FallbackLevel) : Operand → Option Expr
  | .single _ form _ => some (.bare form)
  | .group _ _ chain => prescribe level (chain.first level) (chain.links level)

/-- The tree of the first operand. -/
def Chain.first (level : FallbackLevel) : Chain → Option Expr
  | .last operand => operand.value level
  | .link operand _ _ _ => operand.value level

/-- The operators with the trees of the operands behind them. -/
def Chain.links (level : FallbackLevel) : Chain → List (Link (Option Expr))
  | .last _ => []
  | .link _ op _ rest => ⟨op, rest.first level⟩ :: rest.links level

end

/-- The tree that the ladder of precedence prescribes for a chain, if it has one. -/
def Chain.value (level : FallbackLevel) (chain : Chain) : Option Expr :=
  prescribe level (chain.first level) (chain.links level)

/-! ## Front to back -/

/-- An operator of a chain as it is written, with the operand behind it. -/
structure Step where
  op : BinaryOp
  word : String
  operand : Operand

namespace Step

def signs (step : Step) : List Sign :=
  ⟨step.op.kind, step.word⟩ :: step.operand.signs

def link (level : FallbackLevel) (step : Step) : Link (Option Expr) :=
  ⟨step.op, step.operand.value level⟩

end Step

namespace Chain

/-- The first operand. -/
def head : Chain → Operand
  | .last operand => operand
  | .link operand _ _ _ => operand

/-- The operators with the operands behind them. -/
def steps : Chain → List Step
  | .last _ => []
  | .link _ op word rest => ⟨op, word, rest.head⟩ :: rest.steps

theorem signs_eq : ∀ chain : Chain, chain.signs = chain.head.signs ++ chain.steps.flatMap Step.signs
  | .last operand => by rw [signs, head, steps, List.flatMap_nil, List.append_nil]
  | .link operand op word rest => by
      rw [signs, head, steps, rest.signs_eq, List.flatMap_cons]
      rfl

theorem first_eq (level : FallbackLevel) (chain : Chain) :
    chain.first level = chain.head.value level := by
  cases chain <;> rw [first, head]

theorem links_eq (level : FallbackLevel) :
    ∀ chain : Chain, chain.links level = chain.steps.map (Step.link level)
  | .last operand => by rw [links, steps, List.map_nil]
  | .link operand op word rest => by
      rw [links, steps, rest.links_eq level, first_eq, List.map_cons]
      rfl

end Chain

/-! ## Reading operands -/

open NixSyntax.Parser

/-- The kinds that go on with a name in a way of their own. -/
def Kind.afterName : List Kind :=
  [.dot, .colon, .atSign]

theorem BinaryOp.kind_not_afterName (op : BinaryOp) : op.kind ∉ Kind.afterName := by
  cases op <;> decide

/-- An operand is read by a rule that gives its tree, in front of everything that does
not go on with a name. -/
def Operand.Starts (level : FallbackLevel) (operand : Operand) : Prop :=
  ∃ sign signs rule, operand.signs = sign :: signs ∧ Grammar.standardStart sign.kind = some rule ∧
    ∀ kind ∉ Kind.afterName, ∀ᶠ levels in Filter.atTop, ∀ limit,
      Gives (· = kind) (rule.parse (expression (.standard level) limit levels)) (sign :: signs)
        (operand.value level)

/-- A single token is read as what it stands for. -/
theorem single_yields {sign : Sign} {form : Form} (stands : sign.alone? = some form) :
    ∃ rule, Grammar.standardStart sign.kind = some rule ∧ ∀ kind ∉ Kind.afterName,
      ∀ expr, Yields (· = kind) (StartRule.parse expr rule) [sign] (.bare form) := by
  obtain ⟨kind, text⟩ := sign
  by_cases name : kind = .identifier
  · subst name
    obtain rfl : Form.name [.name text] = form := Option.some.inj stands
    refine ⟨.name, rfl, fun kind ends expr => ?_⟩
    have path : Yields (· = kind) (attrPath expr) ([⟨.identifier, text⟩] ++ []) [.name text] := by
      apply attrPath_yields (segment_name (by decide) text)
      apply YieldsMany.nil
      exact dottedSegment_stops.known fun dot => ends (dot ▸ by decide)
    apply name_path path
    rintro kind rfl member
    exact ends (List.mem_cons_of_mem _ member)
  · have rule : Grammar.standardStart kind = some .literal := by
      cases kind <;> first | rfl | exact absurd rfl name | cases stands
    refine ⟨.literal, rule, fun _ _ expr => literal_yields ?_⟩
    rintro token same
    obtain rfl : token.kind = kind := congrArg Sign.kind same
    obtain rfl : token.value = text := congrArg Sign.value same
    rw [← stands, Token.literal?, Sign.alone?]
    cases known : token.kind <;> first | rfl | exact absurd known name

/-! ## Reading chains -/

section Reading

variable {level : FallbackLevel} {power : Power} {kind : Kind} {steps : List Step}

/-- The tokens behind an operator start with an operator too, or none are left. -/
theorem leadKind_steps (ends : kind ∉ Kind.afterName) (steps : List Step) :
    Sign.leadKind (steps.flatMap Step.signs) kind ∉ Kind.afterName := by
  cases steps with
  | nil => exact ends
  | cons step steps => exact step.op.kind_not_afterName

/-- What holds of every value from some level on holds of the value of an outcome. -/
theorem eventually_outcome {α : Type} (outcome : Option α) {holds : α → Nat → Prop}
    (each : ∀ value, ∀ᶠ levels in Filter.atTop, holds value levels) :
    ∀ᶠ levels in Filter.atTop, ∀ value, outcome = some value → holds value levels := by
  cases outcome with
  | none => exact .of_forall nofun
  | some value =>
      filter_upwards [each value] with levels enough
      rintro _ ⟨⟩
      exact enough

/-- An expression is its first operand and what goes on from there. -/
theorem expression_operand {operand : Operand} (starts : operand.Starts level)
    (ends : kind ∉ Kind.afterName)
    (rest : ∀ first, ∀ᶠ levels in Filter.atTop, ∀ limit,
      Gives (· = kind) (continuation (.standard level) limit levels power first)
        (steps.flatMap Step.signs) (prescribe level (some first) (steps.map (Step.link level)))) :
    ∀ᶠ levels in Filter.atTop, ∀ limit,
      Gives (· = kind) (expression (.standard level) limit levels power)
        (operand.signs ++ steps.flatMap Step.signs)
        (prescribe level (operand.value level) (steps.map (Step.link level))) := by
  obtain ⟨sign, signs, rule, shape, start, read⟩ := starts
  rw [shape, prescribe_eq_bind]
  apply eventually_succ ((read _ (leadKind_steps ends steps)).and
    (eventually_outcome (operand.value level) rest))
  rintro levels ⟨read, rest⟩ limit
  exact expression_gives start (read limit) (fun first known => rest first known limit)
    fun _ same => congrArg _ same

/-! ### The operand of an operator

An operand ends in front of an operator that the operator before it does not take
in, or where the whole chain ends.
-/

section Operands

variable {op : BinaryOp} {near far : List Step}

/-- The operand ends where the chain does. -/
theorem operand_stops (above : power < op.power level)
    (stops : ¬ power < (Grammar.standard level).power kind)
    (outside : ∀ step ∈ far.head?, ¬ op.operandPower level < step.op.power level) :
    ¬ op.operandPower level <
      (Grammar.standard level).power (Sign.leadKind (far.flatMap Step.signs) kind) := by
  cases far with
  | nil =>
      intro taken
      exact stops (Nat.lt_of_lt_of_le above (BinaryOp.le_of_operandPower_lt taken))
  | cons step far =>
      have differs := outside step rfl
      rwa [← BinaryOp.power_kind] at differs

/-- The power of what follows the operand tells whether a comparison is chained. -/
theorem collides_iff (above : power < op.power level)
    (stops : ¬ power < (Grammar.standard level).power kind) :
    Collides level op (far.map (Step.link level)) ↔
      (op.power level).isNonAssociative = true ∧
        (Grammar.standard level).power (Sign.leadKind (far.flatMap Step.signs) kind) =
          op.power level := by
  cases far with
  | nil =>
      have differs : (Grammar.standard level).power kind ≠ op.power level := by
        intro same
        exact stops (same ▸ above)
      simp [Collides, differs]
  | cons step far =>
      have lead : Sign.leadKind ((step :: far).flatMap Step.signs) kind = step.op.kind := rfl
      rw [lead, BinaryOp.power_kind]
      simp [Collides, Step.link]

/-- What an operator makes of its operands in front of a token of the given kind. -/
def BinaryOp.joined (level : FallbackLevel) (op : BinaryOp) (left : Expr) (right : Option Expr)
    (kind : Kind) : Option Expr :=
  right.bind fun right =>
    if (op.power level).isNonAssociative ∧ (Grammar.standard level).power kind = op.power level
    then none
    else some (.bare (.binary op left right))

/-- The tree of a chain, with its operator and the operands joined as they are read. -/
theorem prescribe_steps (operand : Option Expr) (left : Expr) (above : power < op.power level)
    (stops : ¬ power < (Grammar.standard level).power kind)
    (inside : ∀ step ∈ near, op.operandPower level < step.op.power level)
    (outside : ∀ step ∈ far.head?, ¬ op.operandPower level < step.op.power level) :
    prescribe level (some left) (⟨op, operand⟩ :: (near ++ far).map (Step.link level)) =
      (op.joined level left (prescribe level operand (near.map (Step.link level)))
        (Sign.leadKind (far.flatMap Step.signs) kind)).bind fun node =>
          prescribe level (some node) (far.map (Step.link level)) := by
  rw [List.map_append, prescribe_cons, BinaryOp.joined, Option.bind_assoc]
  · congr
    funext right
    simp only [collides_iff above stops]
    split <;> rfl
  · intro link member
    obtain ⟨step, listed, rfl⟩ := List.mem_map.1 member
    exact BinaryOp.operandPower_lt.1 (inside step listed)
  · intro link isHead
    rw [List.head?_map, Option.mem_def, Option.map_eq_some_iff] at isHead
    obtain ⟨step, isHead, rfl⟩ := isHead
    exact fun encloses => outside step isHead (BinaryOp.operandPower_lt.2 encloses)

end Operands

/-- From an operand on, a chain is read as the tree that is prescribed for it. -/
theorem continuation_steps {steps : List Step}
    (starts : ∀ step ∈ steps, step.operand.Starts level)
    (tighter : ∀ step ∈ steps, power < step.op.power level) (ends : kind ∉ Kind.afterName)
    (stops : ¬ power < (Grammar.standard level).power kind) (left : Expr) :
    ∀ᶠ levels in Filter.atTop, ∀ limit,
      Gives (· = kind) (continuation (.standard level) limit levels power left)
        (steps.flatMap Step.signs)
        (prescribe level (some left) (steps.map (Step.link level))) := by
  induction size : steps.length using Nat.strong_induction_on
    generalizing steps power kind left with
  | _ size ih =>
  subst size
  cases steps with
  | nil =>
      rw [List.map_nil, prescribe_nil]
      exact .of_forall fun _ _ => ((continuation_stops left).known stops).gives
  | cons step steps =>
      obtain ⟨op, word, operand⟩ := step
      -- The operand goes on as long as operators bind tighter, and the chain from there.
      obtain ⟨near, far, rfl, inside, outside⟩ :=
        exists_span (fun step : Step => op.operandPower level < step.op.power level) steps
      obtain ⟨start, startsBehind⟩ := List.forall_mem_cons.1 starts
      obtain ⟨startsNear, startsFar⟩ := List.forall_mem_append.1 startsBehind
      obtain ⟨above, aboveBehind⟩ := List.forall_mem_cons.1 tighter
      obtain ⟨-, aboveFar⟩ := List.forall_mem_append.1 aboveBehind
      rw [List.length_cons, List.length_append] at ih
      have endsNear := leadKind_steps ends far
      have read := expression_operand start endsNear fun first =>
        ih near.length (by omega) startsNear inside endsNear (operand_stops above stops outside)
          first rfl
      have rest := eventually_outcome
        (op.joined level left (prescribe level (operand.value level) (near.map (Step.link level)))
          (Sign.leadKind (far.flatMap Step.signs) kind))
        fun node => ih far.length (by omega) startsFar aboveFar ends stops node rfl
      rw [List.map_cons, Step.link, prescribe_steps _ _ above stops inside outside]
      apply eventually_succ (read.and rest)
      rintro levels ⟨read, rest⟩ limit
      have signs : (⟨op, word, operand⟩ :: (near ++ far)).flatMap Step.signs =
          ⟨op.kind, word⟩ :: (operand.signs ++ near.flatMap Step.signs) ++
            far.flatMap Step.signs := by
        simp [Step.signs]
      rw [signs]
      exact continuation_gives (BinaryOp.join_kind level op) above (binary_gives (read limit))
        (fun node known => rest node known limit) fun _ same => congrArg _ same

/-- A chain is read as the tree that is prescribed for it. -/
theorem chain_gives {chain : Chain} (starts : chain.head.Starts level)
    (startsBehind : ∀ step ∈ chain.steps, step.operand.Starts level)
    (ends : kind ∉ Kind.afterName) (stops : ¬ .base < (Grammar.standard level).power kind) :
    ∀ᶠ levels in Filter.atTop, ∀ limit,
      Gives (· = kind) (expression (.standard level) limit levels .base) chain.signs
        (chain.value level) := by
  have tighter : ∀ step ∈ chain.steps, .base < step.op.power level :=
    fun step _ => step.op.base_lt_power level
  rw [chain.signs_eq, Chain.value, chain.first_eq, chain.links_eq]
  exact expression_operand starts ends (continuation_steps startsBehind tighter ends stops)

mutual

/-- Every operand is read by a rule that gives its tree. -/
theorem Operand.starts (level : FallbackLevel) : ∀ operand : Operand, operand.Starts level
  | .single sign form stands => by
      obtain ⟨rule, start, yields⟩ := single_yields stands
      refine ⟨sign, [], rule, by rw [Operand.signs], start, ?_⟩
      intro kind ends
      rw [Operand.value]
      exact .of_forall fun _ _ => (yields kind ends _).gives
  | .group opening closing chain => by
      obtain ⟨start, startsBehind⟩ := chain.starts level
      have stops : ¬ .base < (Grammar.standard level).power .parenClose := by
        cases level <;> decide
      have inner := chain_gives start startsBehind (by decide) stops
      refine ⟨⟨.parenOpen, opening⟩, _, .group, by rw [Operand.signs], rfl, ?_⟩
      intro kind _
      rw [Operand.value]
      filter_upwards [inner] with levels inner limit
      exact group_gives (inner limit)

/-- So is every operand of a chain. -/
theorem Chain.starts (level : FallbackLevel) : ∀ chain : Chain,
    chain.head.Starts level ∧ ∀ step ∈ chain.steps, step.operand.Starts level
  | .last operand => ⟨operand.starts level, nofun⟩
  | .link operand op word rest => by
      obtain ⟨start, startsBehind⟩ := rest.starts level
      exact ⟨operand.starts level, List.forall_mem_cons.2 ⟨start, startsBehind⟩⟩

end

end Reading

/-- A chain of operators without comments is parsed to the tree that the ladder of
precedence prescribes for it, and refused as a chain of comparisons if it has none. -/
theorem parseTokens_chain (level : FallbackLevel) (chain : Chain) {tokens : List Token}
    (quiet : ∀ token ∈ tokens, token.Quiet)
    (known : Sign.completed (tokens.map Token.sign) = chain.signs ++ [.endOfInput]) :
    ∃ enough, ∀ options : Options, options.fallback = level → enough ≤ options.maxDepth →
      ParsesTo options tokens (chain.value level) := by
  obtain ⟨start, startsBehind⟩ := chain.starts level
  have stops : ¬ .base < (Grammar.standard level).power .endOfInput := by cases level <;> decide
  have gives := chain_gives start startsBehind (by decide) stops
  obtain ⟨enough, gives⟩ := Filter.eventually_atTop.1 gives
  refine ⟨enough, ?_⟩
  rintro options rfl deep
  exact parseTokens_gives quiet known (gives _ deep _)

/-- A name as an operand. -/
def Operand.named (text : String) : Operand :=
  .single ⟨.identifier, text⟩ (.name [.name text]) rfl

/-- Two comparisons have no tree, whatever stands behind them. -/
example (level : FallbackLevel) :
    Chain.value level
      (.link (.named "a") .less "<" <| .link (.named "b") .greater ">" <|
        .link (.named "c") .update "//" <| .last (.named "d")) = none := by
  cases level <;> cbv

/-- The chain `a / b * (c < d) or e`. -/
def Chain.mixed : Chain :=
  .link (.named "a") .div "/" <| .link (.named "b") .mul "*" <|
    .link (.group "(" ")" (.link (.named "c") .less "<" (.last (.named "d")))) .fallback "or" <|
      .last (.named "e")

/-- A division in front of a multiplication, whose right operand is a fallback if `or`
binds like a selection. -/
theorem parseTokens_chain_fallback :
    ∃ tokens, tokenize defaultFile "a / b * (c < d) or e" = .ok tokens ∧
      ∃ enough, ∀ options : Options, options.fallback = .select → enough ≤ options.maxDepth →
        parseTokens options tokens = .ok
          { before := []
            value := .bare (.binary .mul
              (.bare (.binary .div (.bare (.name [.name "a"])) (.bare (.name [.name "b"]))))
              (.bare (.binary .fallback
                (.bare (.binary .less (.bare (.name [.name "c"])) (.bare (.name [.name "d"]))))
                (.bare (.name [.name "e"])))))
            after := [] } := by
  obtain ⟨tokens, split, quiet, known⟩ : ∃ tokens,
      tokenize defaultFile "a / b * (c < d) or e" = .ok tokens ∧
      (∀ token ∈ tokens, token.Quiet) ∧
      Sign.completed (tokens.map Token.sign) = Chain.mixed.signs ++ [.endOfInput] :=
    ⟨_, by cbv, by simp [Token.Quiet], by cbv⟩
  obtain ⟨enough, parsed⟩ := parseTokens_chain .select .mixed quiet known
  have tree : Chain.mixed.value .select = some (.bare (.binary .mul
      (.bare (.binary .div (.bare (.name [.name "a"])) (.bare (.name [.name "b"]))))
      (.bare (.binary .fallback
        (.bare (.binary .less (.bare (.name [.name "c"])) (.bare (.name [.name "d"]))))
        (.bare (.name [.name "e"])))))) := by
    cbv
  rw [tree] at parsed
  exact ⟨tokens, split, enough, parsed⟩

end NixSyntax
