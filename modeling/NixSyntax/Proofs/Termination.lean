/-
Module: NixSyntax.Proofs.Termination
Purpose: Parsing an expression makes progress, and ends because the tokens run out and not because
  depth is limited.
Main exports: Parser.expressionVia, Parser.Unlimited, Parser.MakesProgress,
  Parser.expression_makesProgress
-/
import NixSyntax.Proofs.DepthLimit
import NixSyntax.Proofs.Moves

namespace NixSyntax

/-!
The rules call the parser for nested expressions behind a token of their own
only, except that a function reads its first argument where it stands itself.
So every call that an expression makes lies behind its first token, and the
number of tokens that are left bounds the recursion.  Twice that number of
levels is enough for it, and the limit of depth can be taken away: the equations
of the parser without it have a solution, and no other one on the tokens of an
input.
-/

namespace Parser

open NixSyntax.Stream
open Relation (ReflTransGen)

variable {origin source : Stream} {fallback : FallbackLevel} {limit levels : Nat}

/-! ## Expressions with other parsers inside -/

/-- `continuation`, but it calls `nested` where it would call `expression`.
Without levels it calls neither. -/
def continuationVia (grammar : Grammar) (limit : Nat) (nested : Nat → ExprParser) :
    Nat → Power → Expr → Parser Expr
  | 0 => continuation grammar limit 0
  | levels + 1 =>
    joining grammar (nested levels) (continuationVia grammar limit nested levels)

/-- `expression`, but it calls `nested` where it would call itself. -/
def expressionVia (grammar : Grammar) (limit : Nat) (nested : Nat → ExprParser) :
    Nat → ExprParser
  | 0 => expression grammar limit 0
  | levels + 1 =>
    opening grammar (nested levels) (continuationVia grammar limit nested levels)

theorem continuationVia_expression (grammar : Grammar) (limit levels : Nat) :
    continuationVia grammar limit (expression grammar limit) levels =
      continuation grammar limit levels := by
  induction levels with
  | zero => rfl
  | succ levels ih => rw [continuationVia, ih, continuation_succ]

/-- With itself inside it is the same parser. -/
theorem expressionVia_expression (grammar : Grammar) (limit levels : Nat) :
    expressionVia grammar limit (expression grammar limit) levels =
      expression grammar limit levels := by
  cases levels with
  | zero => rfl
  | succ levels => rw [expressionVia, continuationVia_expression, expression_succ]

/-! ## Progress -/

/-- Wherever they start, the parsers make moves only.  An expression passes a token,
and it is spelled by what is passed. -/
structure Proceeds (expr : ExprParser) (more : Power → Expr → Parser Expr) : Prop where
  spells (power : Power) : Spells Expr.spellings (expr power)
  nested {origin : Stream} {started : Bool} {held : List Kind} (calm : Calm held) (power : Power) :
    (Watch.progress origin).Sees ⟨started, held, none⟩ (.behind held) (expr power) (expr power)
  goesOn {origin : Stream} {held : List Kind} (calm : Calm held) (power : Power) (left : Expr) :
    (Watch.progress origin).Sees (.behind held) (.behind held) (more power left) (more power left)

theorem fail_progress {pre post : Stage} {cause : Cause} :
    (Watch.progress origin).Sees pre post (fail cause : Parser Expr) (fail cause) :=
  Watch.fail_sees fun _ reaches => reaches.moves

theorem expression_proceeds (fallback : FallbackLevel) (limit levels : Nat) :
    Proceeds (expression (.standard fallback) limit levels)
      (continuation (.standard fallback) limit levels) where
  spells := expression_spells fallback limit levels
  nested calm power := expression_parallel calm (fun _ => fail_progress) levels power
  goesOn calm power _ :=
    continuation_parallel calm (fun _ => fail_progress) levels
      (fun fewer _ power _ calm => expression_parallel calm (fun _ => fail_progress) fewer power)
      power rfl

/-- The parsers inside are those of the levels, as far as streams behind the first
token are concerned. -/
def AgreesBehind (fallback : FallbackLevel) (limit : Nat) (origin : Stream)
    (nested : Nat → ExprParser) : Prop :=
  ∀ levels power stream, origin.Moves stream → origin.Passed stream →
    nested levels power stream = expression (.standard fallback) limit levels power stream

section Levels

variable {nested : Nat → ExprParser} (agrees : AgreesBehind fallback limit origin nested)

include agrees

theorem continuationVia_progress {held : List Kind} (calm : Calm held) (power : Power)
    (left : Expr) :
    (Watch.progress origin).Sees (.behind held) (.behind held)
      (continuation (.standard fallback) limit levels power left)
      (continuationVia (.standard fallback) limit nested levels power left) := by
  induction levels generalizing power left with
  | zero => exact continuation_zero_parallel calm (fun _ => fail_progress) power rfl
  | succ levels ih =>
      rw [continuationVia, continuation_succ]
      have proceeds := expression_proceeds fallback limit levels
      have inner : ∀ power {held}, Calm held → (Watch.progress origin).Sees (.behind held)
          (.behind held) (expression (.standard fallback) limit levels power)
          (nested levels power) :=
        fun power _ calm => (proceeds.nested calm power).replace fun stream reaches =>
          agrees levels power stream reaches.moves (reaches.passed rfl)
      apply joining_parallel calm proceeds.spells inner
      · rintro power left _ rfl
        exact ih power left
      · exact inner .application calm
      · rfl

theorem expressionVia_progress {held : List Kind} (calm : Calm held) (power : Power) :
    (Watch.progress origin).Sees ⟨false, held, none⟩ (.behind held)
      (expression (.standard fallback) limit levels power)
      (expressionVia (.standard fallback) limit nested levels power) := by
  cases levels with
  | zero =>
      rw [expressionVia, expression]
      exact fail_progress
  | succ levels =>
      rw [expressionVia, expression_succ]
      have proceeds := expression_proceeds fallback limit levels
      apply opening_parallel calm proceeds.spells
      · exact fun power _ calm => (proceeds.nested calm power).replace fun stream reaches =>
          agrees levels power stream reaches.moves (reaches.passed rfl)
      · rintro power left _ rfl
        exact continuationVia_progress agrees calm power left

end Levels

/-! ## Without a limit -/

/-- The equations of the parser if depth is not limited, on streams that end. -/
structure Unlimited (grammar : Grammar) (expr : ExprParser)
    (more : Power → Expr → Parser Expr) : Prop where
  opens (power : Power) (source : Stream) (ended : source.Ended) :
    expr power source = opening grammar expr more power source
  joins (power : Power) (left : Expr) (source : Stream) (ended : source.Ended) :
    more power left source = joining grammar expr more power left source

section Bodies

variable {expr expr' : ExprParser} {more more' : Power → Expr → Parser Expr}
  (proceeds : Proceeds expr more) (ended : source.Ended)

include proceeds ended

theorem opening_eq
    (nested : ∀ power stream, stream.Ended → source.Passed stream →
      expr' power stream = expr power stream)
    (goesOn : ∀ power left stream, stream.Ended → source.Passed stream →
      more' power left stream = more power left stream) (power : Power) :
    opening (.standard fallback) expr' more' power source =
      opening (.standard fallback) expr more power source := by
  have sees : (Watch.progress source).Sees ⟨false, [], none⟩ (.behind [])
      (opening (.standard fallback) expr more power)
      (opening (.standard fallback) expr' more' power) := by
    apply opening_parallel calm_nil proceeds.spells
    · exact fun power _ calm => (proceeds.nested calm power).replace fun stream reaches =>
        nested power stream (reaches.moves.ended ended) (reaches.passed rfl)
    · rintro power left _ rfl
      exact (proceeds.goesOn calm_nil power left).replace fun stream reaches =>
        goesOn power left stream (reaches.moves.ended ended) (reaches.passed rfl)
  exact (sees.run_eq (.start ended) nofun fun _ _ => id).symm

theorem joining_eq
    (nested : ∀ power stream, stream.Ended →
      stream.upcoming.length ≤ source.upcoming.length → expr' power stream = expr power stream)
    (goesOn : ∀ power left stream, stream.Ended → source.Passed stream →
      more' power left stream = more power left stream) (power : Power) (left : Expr) :
    joining (.standard fallback) expr' more' power left source =
      joining (.standard fallback) expr more power left source := by
  have inner : ∀ {started : Bool} power {held}, Calm held → (Watch.progress source).Sees
      ⟨started, held, none⟩ (.behind held) (expr power) (expr' power) :=
    fun power _ calm => (proceeds.nested calm power).replace fun stream reaches =>
      nested power stream (reaches.moves.ended ended) (reaches.moves.length_le ended)
  have sees : (Watch.progress source).Sees ⟨false, [], none⟩ ⟨false, [], none⟩
      (joining (.standard fallback) expr more power left)
      (joining (.standard fallback) expr' more' power left) := by
    apply joining_parallel calm_nil proceeds.spells inner
    · rintro power left _ rfl
      exact (proceeds.goesOn calm_nil power left).replace fun stream reaches =>
        goesOn power left stream (reaches.moves.ended ended) (reaches.passed rfl)
    · exact inner .application calm_nil
    · rfl
  exact (sees.run_eq (.start ended) nofun fun _ _ => id).symm

end Bodies

/-! ## Levels that are always enough -/

/-- More levels than the tokens need change nothing. -/
theorem expression_stable {limit' levels' : Nat} (ended : source.Ended)
    (enough : 2 * source.signs.length ≤ levels + 1)
    (enough' : 2 * source.signs.length ≤ levels' + 1) (power : Power) :
    expression (.standard fallback) limit levels power source =
      expression (.standard fallback) limit' levels' power source := by
  wlog fewer : levels ≤ levels' generalizing levels levels' limit limit'
  · exact (this enough' enough (Nat.le_of_not_le fewer)).symm
  have sees : (Watch.curtail limit True source.signs.length).Sees ⟨false, [], none⟩ (.behind [])
      (expression (.standard fallback) limit levels power)
      (expression (.standard fallback) limit' levels' power) :=
    expression_curtails fewer enough calm_nil power
  exact sees.run_eq ⟨ended, fun _ => le_refl _⟩ nofun fun _ _ cut => cut.2 trivial

theorem continuation_stable {limit' levels' : Nat} (ended : source.Ended)
    (enough : 2 * source.signs.length ≤ levels) (enough' : 2 * source.signs.length ≤ levels')
    (power : Power) (left : Expr) :
    continuation (.standard fallback) limit levels power left source =
      continuation (.standard fallback) limit' levels' power left source := by
  wlog fewer : levels ≤ levels' generalizing levels levels' limit limit'
  · exact (this enough' enough (Nat.le_of_not_le fewer)).symm
  have sees : (Watch.curtail limit True source.signs.length).Sees ⟨false, [], none⟩
      ⟨false, [], none⟩ (continuation (.standard fallback) limit levels power left)
      (continuation (.standard fallback) limit' levels' power left) := by
    apply continuation_curtails fewer enough _ calm_nil
    intro _ _ _ _ more enough power _ calm
    exact expression_curtails more enough calm power
  exact sees.run_eq ⟨ended, fun _ => le_refl _⟩ nofun fun _ _ cut => cut.2 trivial

/-- The parser with as many levels as there is use for. -/
def unlimited (grammar : Grammar) : ExprParser :=
  fun power source => expression grammar 0 (2 * source.signs.length + 1) power source

/-- The same for what goes on with an expression. -/
def unlimitedMore (grammar : Grammar) (power : Power) (left : Expr) : Parser Expr :=
  fun source => continuation grammar 0 (2 * source.signs.length + 1) power left source

theorem unlimited_eq (ended : source.Ended) (enough : 2 * source.signs.length ≤ levels + 1)
    (power : Power) :
    unlimited (.standard fallback) power source =
      expression (.standard fallback) limit levels power source :=
  expression_stable ended (by omega) enough power

theorem unlimitedMore_eq (ended : source.Ended) (enough : 2 * source.signs.length ≤ levels)
    (power : Power) (left : Expr) :
    unlimitedMore (.standard fallback) power left source =
      continuation (.standard fallback) limit levels power left source :=
  continuation_stable ended (by omega) enough power left

theorem unlimited_proceeds (fallback : FallbackLevel) :
    Proceeds (unlimited (.standard fallback)) (unlimitedMore (.standard fallback)) where
  spells power source := expression_spells fallback 0 _ power source
  nested calm power := by
    rintro _ source ⟨⟨rfl, reaches⟩, -⟩
    have proceeds := expression_proceeds fallback 0 (2 * source.signs.length + 1)
    exact proceeds.nested calm power source source ⟨⟨rfl, reaches⟩, nofun⟩
  goesOn calm power left := by
    rintro _ source ⟨⟨rfl, reaches⟩, -⟩
    have proceeds := expression_proceeds fallback 0 (2 * source.signs.length + 1)
    exact proceeds.goesOn calm power left source source ⟨⟨rfl, reaches⟩, nofun⟩

theorem unlimited_solves (fallback : FallbackLevel) :
    Unlimited (.standard fallback) (unlimited (.standard fallback))
      (unlimitedMore (.standard fallback)) where
  opens power source ended := by
    rw [unlimited, expression_succ]
    symm
    apply opening_eq (expression_proceeds fallback 0 _) ended
    · intro power stream endedThen passed
      have fewer := passed.signs_lt
      exact unlimited_eq endedThen (by omega) power
    · intro power left stream endedThen passed
      have fewer := passed.signs_lt
      exact unlimitedMore_eq endedThen (by omega) power left
  joins power left source ended := by
    rw [unlimitedMore, continuation_succ]
    symm
    apply joining_eq (expression_proceeds fallback 0 _) ended
    · intro power stream endedThen few
      have few : stream.signs.length ≤ source.signs.length := by
        rw [length_signs, length_signs]
        exact Nat.succ_le_succ few
      exact unlimited_eq endedThen (by omega) power
    · intro power left stream endedThen passed
      have fewer := passed.signs_lt
      exact unlimitedMore_eq endedThen (by omega) power left

/-- There is only one way to parse without a limit. -/
theorem Unlimited.unique {expr : ExprParser} {more : Power → Expr → Parser Expr}
    (solves : Unlimited (.standard fallback) expr more) (ended : source.Ended) :
    (∀ power, expr power source = unlimited (.standard fallback) power source) ∧
      ∀ power left, more power left source =
        unlimitedMore (.standard fallback) power left source := by
  have proceeds := unlimited_proceeds fallback
  have solution := unlimited_solves fallback
  generalize count : source.upcoming.length = left
  induction left using Nat.strongRecOn generalizing source with
  | ind left ih =>
      have opens : ∀ stream : Stream, stream.Ended → stream.upcoming.length ≤ left →
          ∀ power, expr power stream = unlimited (.standard fallback) power stream := by
        intro stream ended few power
        rw [solves.opens power stream ended, solution.opens power stream ended]
        apply opening_eq proceeds ended
        · exact fun power target endedThen passed =>
            (ih _ (Nat.lt_of_lt_of_le passed few) endedThen rfl).1 power
        · exact fun power left target endedThen passed =>
            (ih _ (Nat.lt_of_lt_of_le passed few) endedThen rfl).2 power left
      refine ⟨opens source ended count.le, ?_⟩
      intro power left
      rw [solves.joins power left source ended, solution.joins power left source ended]
      apply joining_eq proceeds ended
      · exact fun power target endedThen few => opens target endedThen (few.trans count.le) power
      · exact fun power left target endedThen passed =>
          (ih _ (Nat.lt_of_lt_of_le passed count.le) endedThen rfl).2 power left

theorem Unlimited.spells {expr : ExprParser} {more : Power → Expr → Parser Expr}
    (solves : Unlimited (.standard fallback) expr more) (power : Power) :
    Spells Expr.spellings (expr power) := by
  intro source value target run
  have taken : source.Ended → source.Takes value.spellings target := by
    intro ended
    rw [(solves.unique ended).1 power] at run
    exact expression_spells fallback 0 _ power source value target run
  exact ⟨fun ended => (taken ended).reads ended, fun ended => (taken ended).shorter ended⟩

/-! ## The whole statement -/

/-- An expression that is read from `source`, under any limit of depth and within
any context, makes progress and ends by itself. -/
structure MakesProgress (fallback : FallbackLevel) (source : Stream) : Prop where
  /-- A result leaves fewer tokens than there were. -/
  passes {limit levels : Nat} {power : Power} {value : Expr} {target : Stream}
    (run : expression (.standard fallback) limit levels power source = .ok value target) :
    source.SparesEnd target ∧ source.Passed target
  /-- Not even a run that fails reads the end of the input. -/
  fails {limit levels : Nat} {power : Power} {fault : Fault} {target : Stream}
    (run : expression (.standard fallback) limit levels power source = .error fault target) :
    source.SparesEnd target
  /-- Whatever would be done for nested expressions that start where this one does,
  or before it, nothing changes: there are none. -/
  nested {limit : Nat} {nested : Nat → ExprParser}
    (agrees : AgreesBehind fallback limit source nested) (levels : Nat) (power : Power) :
    expressionVia (.standard fallback) limit nested levels power source =
      expression (.standard fallback) limit levels power source
  /-- There is a parser without a limit of depth. -/
  unlimited : ∃ expr more, Unlimited (.standard fallback) expr more
  /-- Its runs are determined by its equations, and a limit of twice as many levels
  as there are tokens makes no difference. -/
  determined {expr : ExprParser} {more : Power → Expr → Parser Expr}
    (solves : Unlimited (.standard fallback) expr more) {limit levels : Nat}
    (enough : 2 * source.signs.length ≤ levels + 1) (power : Power) :
    expr power source = expression (.standard fallback) limit levels power source
  /-- Its repetitions end by themselves. -/
  rounds {expr : ExprParser} {more : Power → Expr → Parser Expr}
    (solves : Unlimited (.standard fallback) expr more) : RoundsEnd expr
  /-- So do those of the parser with a limit. -/
  roundsWithin (limit levels : Nat) : RoundsEnd (expression (.standard fallback) limit levels)

theorem expression_reaches (fallback : FallbackLevel) {limit levels : Nat} {power : Power} :
    (Watch.progress source).Sees ⟨false, [], none⟩ (.behind [])
      (expression (.standard fallback) limit levels power)
      (expression (.standard fallback) limit levels power) :=
  (expression_proceeds fallback limit levels).nested calm_nil power

/-- Wherever an expression is read in front of the end of the input, the parser
makes progress, and it ends because the tokens run out. -/
theorem expression_makesProgress (fallback : FallbackLevel) (source : Stream)
    (ended : source.Ended) : MakesProgress fallback source where
  passes run := by
    obtain ⟨-, reached⟩ := (expression_reaches fallback).of_ok (.start ended) nofun run
    exact ⟨reached.moves.sparesEnd ended, reached.passed rfl⟩
  fails run := by
    rcases (expression_reaches fallback).of_error (.start ended) nofun run with ⟨-, moves⟩ | ⟨⟨⟩⟩
    exact moves.sparesEnd ended
  nested agrees levels power := by
    have sees : (Watch.progress source).Sees ⟨false, [], none⟩ (.behind [])
        (expression (.standard fallback) _ levels power)
        (expressionVia (.standard fallback) _ _ levels power) :=
      expressionVia_progress agrees calm_nil power
    exact (sees.run_eq (.start ended) nofun fun _ _ => id).symm
  unlimited := ⟨_, _, unlimited_solves fallback⟩
  determined solves limit levels enough power := by
    rw [(solves.unique ended).1 power]
    exact unlimited_eq ended enough power
  rounds solves := roundsEnd_of_shrink (roundsShrink_of_spells solves.spells)
  roundsWithin limit levels :=
    roundsEnd_of_shrink (roundsShrink_of_spells (expression_spells fallback limit levels))

/-- The tokens of a list with a function in it, which reads its argument at the
token where the join rule starts.  Eight levels are enough for them. -/
theorem expression_makesProgress_list :
    ∃ tokens value target, tokenize "a.nix" "[ (f a) ]" = .ok tokens ∧
      (Stream.ofTokens "a.nix" tokens).Ended ∧
      MakesProgress .lowest (Stream.ofTokens "a.nix" tokens) ∧
      expression (.standard .lowest) 8 8 .base (.ofTokens "a.nix" tokens) = .ok value target ∧
      (Stream.ofTokens "a.nix" tokens).Passed target := by
  obtain ⟨tokens, value, target, done, ends, run⟩ : ∃ tokens value target,
      tokenize "a.nix" "[ (f a) ]" = .ok tokens ∧
      (∃ last ∈ tokens.getLast?, last.kind = .endOfInput) ∧
      expression (.standard .lowest) 8 8 .base (.ofTokens "a.nix" tokens) =
        .ok value target := by
    exact ⟨_, _, _, by cbv, ⟨_, rfl, rfl⟩, by cbv⟩
  have ended := (ended_ofTokens "a.nix" ends).2
  have progress := expression_makesProgress .lowest _ ended
  exact ⟨tokens, value, target, done, ended, progress, run, (progress.passes run).2⟩

end Parser

end NixSyntax
