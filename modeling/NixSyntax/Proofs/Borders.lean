/-
Module: NixSyntax.Proofs.Borders
Purpose: Behind an expression no comment is left to be claimed, and the next token has lost its own
  only if it is one that follows expressions.
Main exports: Token.settled, Token.lost, Stream.Settled, placedLedger, Parser.Freshens,
  Parser.expression_settles
-/
import NixSyntax.Proofs.Conservation

namespace NixSyntax

/-!
The comments above a token are taken in front of it, by what is about to read
it, or behind an expression, if the token is one that follows expressions.  So
where a rule ends, the next token either has just come up with its comments or
has been reached by a nested expression.  What stands in front of the last step
of a rule does not matter, as long as that step starts at one of the tokens;
and that the ledger keeps track of.
-/

/-- What is left of a token behind an expression. -/
def Token.settled (token : Token) : Token :=
  if token.kind.isFollower then { token with leading := [] } else token

theorem Token.settled_of_follower {token : Token} (follower : token.kind.isFollower) :
    token.settled = { token with leading := [] } :=
  if_pos follower

theorem Token.settled_of_other {token : Token} (other : ¬ token.kind.isFollower) :
    token.settled = token :=
  if_neg other

/-- Only the comments above it can be gone. -/
theorem Token.settled_eq (token : Token) :
    token.settled = { token with leading := token.settled.leading } := by
  rw [settled]
  split <;> rfl

/-- There is nothing more to take off. -/
theorem Token.settled_settled (token : Token) : token.settled.settled = token.settled := by
  by_cases follower : token.kind.isFollower
  · rw [settled_of_follower follower]
    exact if_pos follower
  · rw [settled_of_other follower, settled_of_other follower]

/-- The comments that a token loses to an expression in front of it. -/
def Token.lost (token : Token) : List Comment :=
  if token.kind.isFollower then token.leading else []

theorem Token.comments_settled (token : Token) :
    token.comments = token.lost ++ token.settled.comments := by
  unfold lost settled comments
  split <;> simp

namespace Stream

variable {all : List Token} {stream : Stream}

/-- The stream stands at one of these tokens and has those behind it still to
read.  The comments above the current token may be gone. -/
def Stands (all : List Token) (stream : Stream) : Prop :=
  stream.upcoming ≠ [] → ∃ token, token :: stream.upcoming <:+ all ∧
    stream.current = { token with leading := stream.current.leading }

/-- The stream stands at one of these tokens, and an expression in front of it is
all that may have taken comments off that token. -/
def Fresh (all : List Token) (stream : Stream) : Prop :=
  stream.upcoming ≠ [] → ∃ token, token :: stream.upcoming <:+ all ∧
    (stream.current = token ∨ stream.current = token.settled)

/-- The stream stands behind an expression that has taken all that belongs to
it. -/
structure Settled (all : List Token) (stream : Stream) : Prop where
  claimed : stream.unclaimed = {}
  token : stream.upcoming ≠ [] → ∃ token, token :: stream.upcoming <:+ all ∧
    stream.current = token.settled

theorem Settled.fresh (settled : stream.Settled all) : stream.Fresh all := by
  intro more
  obtain ⟨token, suffix, same⟩ := settled.token more
  exact ⟨token, suffix, .inr same⟩

theorem Fresh.stands (fresh : stream.Fresh all) : stream.Stands all := by
  intro more
  obtain ⟨token, suffix, same | same⟩ := fresh more
  · exact ⟨token, suffix, by rw [same]⟩
  · exact ⟨token, suffix, by rw [same, ← token.settled_eq]⟩

theorem Stands.upcoming (stands : stream.Stands all) : stream.upcoming <:+ all := by
  by_cases more : stream.upcoming = []
  · rw [more]
    exact List.nil_suffix
  · obtain ⟨token, suffix, -⟩ := stands more
    exact (List.suffix_cons token _).trans suffix

/-- The token behind the current one comes up with its comments. -/
theorem Stands.fresh_advance (stands : stream.Stands all) : stream.advance.2.Fresh all := by
  have suffix := stands.upcoming
  obtain ⟨current, upcoming, unclaimed⟩ := stream
  cases upcoming with
  | nil => exact fun more => absurd rfl more
  | cons next rest => exact fun _ => ⟨next, suffix, .inl rfl⟩

theorem unclaimed_advance (stream : Stream) :
    stream.advance.2.unclaimed = (stream.unclaimed.consume stream.current).1 := by
  unfold Stream.advance
  cases stream.upcoming <;> rfl

end Stream

/-- The ledger that counts how often each comment is there, while the stream
stands at these tokens. -/
def placedLedger (all : List Token) : Ledger (Multiset Comment) :=
  { multisetLedger with
    Admits := Stream.Stands all
    admits_advance := fun stands => stands.fresh_advance.stands
    admits_trim := fun leading unclaimed stands more => by
      obtain ⟨token, suffix, same⟩ := stands more
      exact ⟨token, suffix, congrArg (fun current : Token => { current with leading }) same⟩
    commutes := fun _ _ => add_comm }

namespace Parser

open NixSyntax.Stream NixSyntax.Ledger

variable {α : Type} {all : List Token} {source target : Stream} {expr : ExprParser}

/-- What a run pays for, it leaves at one of the tokens. -/
theorem stands_of_pays {paid : List Comment} (stands : source.Stands all)
    (pays : (placedLedger all).Pays source paid target) : target.Stands all :=
  (pays stands).1

/-- No successful run ends at a token that it has taken comments off, but for those
behind an expression. -/
def Freshens (all : List Token) (parser : Parser α) : Prop :=
  ∀ source value target, source.Stands all → parser source = .ok value target → target.Fresh all

/-- Repeated, steps leave the token behind the last item, or the one they start
at. -/
theorem many_freshens {step : Parser (Option α)} {items : List α}
    (some : ∀ source item target, source.Stands all → step source = .ok (some item) target →
      target.Fresh all)
    (none : ∀ source target, step source = .ok none target → source = target)
    (fresh : source.Fresh all) (run : many step source = .ok items target) : target.Fresh all := by
  obtain ⟨stream, middle, got, repeated⟩ := bind_ok.1 run
  obtain ⟨rfl, rfl⟩ := get_ok.1 got
  clear run got
  generalize source.current :: source.upcoming = bound at repeated
  induction bound generalizing source items with
  | nil =>
      obtain ⟨-, rfl⟩ := pure_ok.1 repeated
      exact fresh
  | cons token bound ih =>
      rcases manyWithin_cons_ok.1 repeated with
        ⟨stepped, -⟩ | ⟨item, middle, rest, stepped, others, -⟩
      · exact none _ _ stepped ▸ fresh
      · exact ih (some _ _ _ fresh.stands stepped) others

section Rules

variable (balances : ∀ power, (placedLedger all).Balances Expr.comments (expr power))
  (nested : ∀ power, Freshens all (expr power))

/-! ## Rules that end with a token -/

theorem literal_freshens : Freshens all literal := by
  intro source value target stands run
  obtain ⟨form, -, rfl, -⟩ := literal_ok.1 run
  exact stands.fresh_advance

include balances

theorem interpolated_freshens : Freshens all (interpolated expr) := by
  intro source value target stands run
  obtain ⟨-, s₁, read, -, rfl⟩ := interpolated_ok.1 run
  have inside := (pays_advance source).trans (balances _ _ _ _ read)
  exact (stands_of_pays stands inside).fresh_advance

theorem stringLiteral_freshens : Freshens all (stringLiteral expr) := by
  rintro source ⟨indented, parts⟩ target stands run
  obtain ⟨-, s₁, read, rfl, -⟩ := stringLiteral_ok.1 run
  have inside := (pays_advance source).trans
    (many_balances rfl StringPart.comments_cons (stringPart_balances balances _) _ _ _ read)
  exact (stands_of_pays stands inside).fresh_advance

theorem segment_freshens : Freshens all (segment expr) := by
  intro source found target stands run
  rcases segment_ok.1 run with ⟨-, rfl, -⟩ | ⟨value, read, -⟩ | ⟨-, indented, parts, read, -⟩
  · exact stands.fresh_advance
  · exact interpolated_freshens balances _ _ _ stands read
  · exact stringLiteral_freshens balances _ _ _ stands read

theorem attrPath_freshens : Freshens all (attrPath expr) := by
  intro source path target stands run
  obtain ⟨first, s₁, others, readFirst, readOthers, -⟩ := attrPath_ok.1 run
  refine many_freshens ?_ ?_ (segment_freshens balances _ _ _ stands readFirst) readOthers
  · intro source found target stands run
    obtain ⟨-, segment, read, -⟩ | ⟨-, ⟨⟩, -⟩ := dottedSegment_ok.1 run
    exact segment_freshens balances _ _ _ stands.fresh_advance.stands read
  · intro source target run
    obtain ⟨-, segment, -, ⟨⟩⟩ | ⟨-, -, same⟩ := dottedSegment_ok.1 run
    exact same

theorem attrs_freshens (recursive : Bool) : Freshens all (attrs expr recursive) := by
  intro source value target stands run
  obtain ⟨-, entries, inner, s₁, read, -, rfl, -⟩ := attrs_ok.1 run
  have inside := (pays_advance source).trans (bindings_balances balances _ _ _ _ read)
  exact (stands_of_pays stands inside).fresh_advance

theorem group_freshens : Freshens all (group expr) := by
  intro source value target stands run
  obtain ⟨s₁, read, -, rfl⟩ := group_ok.1 run
  have inside := (pays_advance source).trans (balances _ _ _ _ read)
  exact (stands_of_pays stands inside).fresh_advance

theorem list_freshens : Freshens all (list expr) := by
  intro source value target stands run
  obtain ⟨elements, s₁, inner, s₂, read, taken, rfl, -⟩ := list_ok.1 run
  have inside := (pays_advance source).trans <| (elements_balances balances _ _ _ read).trans
    (takeBefore_balances _ _ _ taken)
  exact (stands_of_pays stands inside).fresh_advance

/-! ## Rules that end with an expression -/

include nested

theorem letIn_freshens : Freshens all (letIn expr) := by
  intro source value target stands run
  obtain ⟨-, -, entries, inner, s₁, body, readEntries, -, readBody, -⟩ := letIn_ok.1 run
  have inside := (pays_advance source).trans <|
    (bindings_balances balances _ _ _ _ readEntries).trans (pays_advance s₁)
  exact nested _ _ _ _ (stands_of_pays stands inside) readBody

theorem lambda_freshens : Freshens all (lambda expr) := by
  intro source value target stands run
  rcases lambda_ok.1 run with ⟨-, -, named⟩ | ⟨-, taken⟩
  · obtain ⟨-, body, readBody, -⟩ := namedLambda_ok.1 named
    exact nested _ _ _ _ stands.fresh_advance.stands.fresh_advance.stands readBody
  · obtain ⟨given, s₁, found, s₂, whole, s₃, body, readGiven, readPattern, readWhole, -, readBody,
      -⟩ := patternLambda_ok.1 taken
    have before : s₁.Stands all := by
      rcases wholeBefore_ok.1 readGiven with ⟨-, -, rfl, -⟩ | ⟨-, -, rfl⟩
      · exact stands.fresh_advance.stands.fresh_advance.stands
      · exact stands
    have behind := stands_of_pays before (pattern_balances balances _ _ _ readPattern)
    have after : s₃.Stands all := by
      rcases wholeAfter_ok.1 readWhole with ⟨-, -, -, rfl, -⟩ | ⟨-, -, rfl⟩
      · exact behind.fresh_advance.stands.fresh_advance.stands
      · exact behind
    exact nested _ _ _ _ after.fresh_advance.stands readBody

theorem name_freshens : Freshens all (name expr) := by
  intro source value target stands run
  rcases name_ok.1 run with ⟨-, read⟩ | ⟨-, path, read, -⟩
  · exact lambda_freshens balances nested _ _ _ stands read
  · exact attrPath_freshens balances _ _ _ stands read

theorem braces_freshens : Freshens all (braces expr) := by
  intro source value target stands run
  rcases braces_ok.1 run with ⟨-, read⟩ | ⟨-, read⟩
  · exact lambda_freshens balances nested _ _ _ stands read
  · exact attrs_freshens balances _ _ _ _ stands read

theorem conditional_freshens : Freshens all (conditional expr) := by
  intro source value target stands run
  obtain ⟨condition, s₁, yes, s₂, no, readCondition, -, readYes, -, readNo, -⟩ :=
    conditional_ok.1 run
  have inside := (pays_advance source).trans <| (balances _ _ _ _ readCondition).trans <|
    (pays_advance s₁).trans <| (balances _ _ _ _ readYes).trans (pays_advance s₂)
  exact nested _ _ _ _ (stands_of_pays stands inside) readNo

omit nested in
/-- In front of the body of a clause. -/
theorem clause_stands {subject : Expr} {after : List Comment} {s₁ : Stream}
    (stands : source.Stands all) (readSubject : expr .base source.advance.2 = .ok subject s₁)
    (taken : takeUnclaimed s₁.advance.2 = .ok after target) : target.Stands all :=
  stands_of_pays stands <| (pays_advance source).trans <|
    (balances _ _ _ _ readSubject).trans <| (pays_advance s₁).trans
      (takeUnclaimed_balances _ _ _ taken)

theorem startRule_freshens (rule : StartRule) : Freshens all (rule.parse expr) := by
  intro source value target stands run
  cases rule with
  | literal => exact literal_freshens _ _ _ stands run
  | name => exact name_freshens balances nested _ _ _ stands run
  | string =>
      obtain ⟨indented, parts, read, -⟩ := string_ok.1 run
      exact stringLiteral_freshens balances _ _ _ stands read
  | group => exact group_freshens balances _ _ _ stands run
  | list => exact list_freshens balances _ _ _ stands run
  | importing =>
      obtain ⟨subject, read, -⟩ := importing_ok.1 run
      exact nested _ _ _ _ stands.fresh_advance.stands read
  | unary =>
      rcases unary_ok.1 run with ⟨-, operand, read, -⟩ | ⟨-, operand, read, -⟩
      · exact nested _ _ _ _ stands.fresh_advance.stands read
      · exact nested _ _ _ _ stands.fresh_advance.stands read
  | conditional => exact conditional_freshens balances nested _ _ _ stands run
  | clause =>
      obtain ⟨subject, s₁, after, s₂, body, readSubject, -, taken, readBody, -⟩ := clause_ok.1 run
      exact nested _ _ _ _ (clause_stands balances stands readSubject taken) readBody
  | braces => exact braces_freshens balances nested _ _ _ stands run
  | recursiveAttrs =>
      obtain ⟨-, read⟩ := recursiveAttrs_ok.1 run
      exact attrs_freshens balances _ _ _ _ stands.fresh_advance.stands read
  | letIn => exact letIn_freshens balances nested _ _ _ stands run
  | lambda => exact lambda_freshens balances nested _ _ _ stands run

/-- A call without arguments, which the grammar excludes, would leave its first
token as it is. -/
theorem joinRule_freshens (grammar : Grammar) (left : Expr) (power : Power) (rule : JoinRule)
    {value : Expr} (fresh : source.Fresh all)
    (run : rule.parse grammar expr left power source = .ok value target) : target.Fresh all := by
  cases rule with
  | binary =>
      obtain ⟨op, right, -, read, -⟩ := binary_ok.1 run
      exact nested _ _ _ _ fresh.stands.fresh_advance.stands read
  | hasAttr =>
      obtain ⟨path, read, -⟩ := hasAttr_ok.1 run
      exact attrPath_freshens balances _ _ _ fresh.stands.fresh_advance.stands read
  | select =>
      obtain ⟨path, read, -⟩ := select_ok.1 run
      exact attrPath_freshens balances _ _ _ fresh.stands.fresh_advance.stands read
  | apply =>
      obtain ⟨arguments, read, -⟩ := apply_ok.1 run
      refine many_freshens ?_ ?_ fresh read
      · intro source item target stands run
        obtain ⟨-, value, read, -⟩ | ⟨-, ⟨⟩, -⟩ := argument_ok.1 run
        exact nested _ _ _ _ stands read
      · intro source target run
        obtain ⟨-, value, -, ⟨⟩⟩ | ⟨-, -, same⟩ := argument_ok.1 run
        exact same

end Rules

/-! ## Whole expressions -/

theorem takeAfter_current {comments : List Comment}
    (run : takeAfter source = .ok comments target) :
    target = { source with current := source.current.settled, unclaimed := {} } := by
  rw [takeAfter_eq] at run
  split at run
  · next follower =>
      rw [Token.settled_of_follower follower]
      exact (takeBefore_ok.1 run).2.symm
  · next other =>
      rw [Token.settled_of_other other]
      exact (takeUnclaimed_ok.1 run).2.symm

/-- Behind an expression a token that follows expressions gives its comments up. -/
theorem takeAfter_settles {comments : List Comment} (fresh : source.Fresh all)
    (run : takeAfter source = .ok comments target) : target.Settled all := by
  obtain rfl := takeAfter_current run
  refine ⟨rfl, fun more => ?_⟩
  obtain ⟨token, suffix, same | same⟩ := fresh more
  · exact ⟨token, suffix, congrArg Token.settled same⟩
  · exact ⟨token, suffix, (congrArg Token.settled same).trans token.settled_settled⟩

theorem continuation_settles {fallback : FallbackLevel} {limit levels : Nat}
    (nested : ∀ fewer < levels, ∀ power,
      Freshens all (expression (.standard fallback) limit fewer power))
    {power : Power} {left value : Expr} (settled : source.Settled all)
    (run : continuation (.standard fallback) limit levels power left source = .ok value target) :
    target.Settled all := by
  induction levels generalizing left source with
  | zero =>
      rcases continuation_ok.1 run with ⟨-, -, rfl⟩ | ⟨_, _, _, _, _, _, _, absurd, _⟩
      · exact settled
      · cases absurd
  | succ levels ih =>
      rcases continuation_ok.1 run with ⟨-, -, rfl⟩ |
        ⟨_, operator, rule, node, s₁, after, s₂, ⟨⟩, -, -, parsed, taken, continued⟩
      · exact settled
      · have fresh := joinRule_freshens (Ledger.expression_balances fallback limit levels)
          (nested levels (Nat.lt_succ_self levels)) _ _ _ _ settled.fresh parsed
        exact ih (fun fewer less => nested fewer (Nat.lt_succ_of_lt less))
          (takeAfter_settles fresh taken) continued

/-- An expression claims all that was read, and the comments above the token
behind it if and only if that token follows expressions. -/
theorem expression_settles (fallback : FallbackLevel) (limit levels : Nat) {power : Power}
    {value : Expr} (stands : source.Stands all)
    (run : expression (.standard fallback) limit levels power source = .ok value target) :
    target.Settled all := by
  induction levels using Nat.strongRecOn generalizing power source target value with
  | ind levels ih =>
      cases levels with
      | zero => exact absurd run expression_zero_ok
      | succ levels =>
          obtain ⟨before, s₁, rule, first, s₂, after, s₃, taken, -, parsed, claimed, continued⟩ :=
            expression_succ_ok.1 run
          have nested : ∀ fewer < levels + 1, ∀ power,
              Freshens all (expression (.standard fallback) limit fewer power) :=
            fun fewer less power source value target stands run => (ih fewer less stands run).fresh
          have fresh := startRule_freshens (Ledger.expression_balances fallback limit levels)
            (nested levels (Nat.lt_succ_self levels)) rule _ _ _
            (stands_of_pays stands (takeBefore_balances _ _ _ taken)) parsed
          exact continuation_settles (fun fewer less => nested fewer (Nat.lt_succ_of_lt less))
            (takeAfter_settles fresh claimed) continued

end Parser

end NixSyntax
