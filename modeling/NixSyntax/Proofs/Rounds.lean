/-
Module: NixSyntax.Proofs.Rounds
Purpose: The repetitions of the rules end by themselves: without the bound on their rounds they
  are the same.
Main exports: Parser.round, Parser.EndsItself, Parser.RoundsEnd, Parser.RoundsShrink,
  Parser.roundsShrink_of_spells, Parser.roundsEnd_of_shrink
-/
import NixSyntax.Proofs.Faithful

namespace NixSyntax

/-!
`many` stops after as many rounds as tokens are left.  A loop without that bound
is a solution of the equation for one round.  Of a loop that never ends nothing
would be known, and each choice of its results would be a solution.  So the
loop ends if the equation has one solution only, and then the bound is never the
reason to stop if `many` is that solution.
-/

namespace Parser

open NixSyntax.Stream

variable {α β : Type} {source : Stream}

/-! ## One round -/

/-- Two sequences run the same if their first steps do, and if the others do behind
the result of these. -/
theorem bind_eq {first second : Parser α} {next next' : α → Parser β}
    (same : first source = second source)
    (rest : ∀ value target, second source = .ok value target →
      next value target = next' value target) :
    (first >>= next) source = (second >>= next') source := by
  show EStateM.bind first next source = EStateM.bind second next' source
  unfold EStateM.bind
  rw [same]
  generalize second source = run at rest
  cases run with
  | ok value target => exact rest value target rfl
  | error fault target => rfl

/-- One round of a repetition: the others are up to `loop`. -/
def round (step : Parser (Option α)) (loop : Parser (List α)) : Parser (List α) := do
  match ← step with
  | none => return []
  | some item => return item :: (← loop)

/-- The repetition of a step is the only loop that goes round with this step. -/
def EndsItself (step : Parser (Option α)) : Prop :=
  ∀ loop : Parser (List α),
    (∀ source, source.Ended → loop source = round step loop source) ↔
      ∀ source, source.Ended → loop source = many step source

section Shrinks

variable {step : Parser (Option α)} (shrinks : Shrinks Stream.Ended step)

include shrinks

/-- Behind an item fewer tokens are left, and a round needs the loop there only. -/
theorem round_eq {loop loop' : Parser (List α)} (ended : source.Ended)
    (same : ∀ target, target.Ended → target.upcoming.length < source.upcoming.length →
      loop target = loop' target) :
    round step loop source = round step loop' source := by
  apply bind_eq rfl
  rintro (_ | item) target run
  · rfl
  · obtain ⟨endedThen, fewer⟩ := shrinks _ _ _ ended run
    exact bind_eq (same target endedThen fewer) fun _ _ _ => rfl

/-- A bound above the number of tokens does not matter. -/
theorem manyWithin_eq {bound bound' : List Token} (ended : source.Ended)
    (enough : source.upcoming.length < bound.length)
    (enough' : source.upcoming.length < bound'.length) :
    manyWithin step bound source = manyWithin step bound' source := by
  induction bound generalizing source bound' with
  | nil => exact absurd enough (Nat.not_lt_zero _)
  | cons token bound ih =>
      cases bound' with
      | nil => exact absurd enough' (Nat.not_lt_zero _)
      | cons token' bound' =>
          rw [List.length_cons] at enough enough'
          apply round_eq shrinks ended
          intro target endedThen fewer
          exact ih endedThen (by omega) (by omega)

theorem many_round (ended : source.Ended) :
    many step source = round step (many step) source := by
  show round step (manyWithin step source.upcoming) source = _
  apply round_eq shrinks ended
  intro target endedThen fewer
  exact manyWithin_eq shrinks endedThen fewer (Nat.lt_succ_self _)

theorem endsItself_of_shrinks : EndsItself step := by
  intro loop
  constructor
  · intro rounds source ended
    generalize count : source.upcoming.length = left
    induction left using Nat.strongRecOn generalizing source with
    | ind left ih =>
        subst count
        rw [rounds source ended, many_round shrinks ended]
        apply round_eq shrinks ended
        intro target endedThen fewer
        exact ih _ fewer target endedThen rfl
  · intro same source ended
    rw [same source ended, many_round shrinks ended]
    apply round_eq shrinks ended
    intro target endedThen _
    exact (same target endedThen).symm

end Shrinks

/-! ## The repetitions of the rules -/

/-- Every repetition in the rules ends by itself: those of strings, attribute
paths, `inherit`, sets and `let`, patterns, lists and arguments. -/
structure RoundsEnd (expr : ExprParser) : Prop where
  stringPart (close : Kind) : EndsItself (stringPart expr close)
  dottedSegment : EndsItself (dottedSegment expr)
  inheritedName : EndsItself (inheritedName expr)
  binding (close : Kind) : EndsItself (binding expr close)
  nextParam : EndsItself (nextParam expr)
  element : EndsItself (element expr)
  argument : EndsItself (argument expr)

/-- Every repetition in the rules has read on when it returns an item. -/
structure RoundsShrink (expr : ExprParser) : Prop where
  stringPart (close : Kind) : Shrinks Stream.Ended (stringPart expr close)
  dottedSegment : Shrinks Stream.Ended (dottedSegment expr)
  inheritedName : Shrinks Stream.Ended (inheritedName expr)
  binding (close : Kind) : Shrinks Stream.Ended (binding expr close)
  nextParam : Shrinks Stream.Ended (nextParam expr)
  element : Shrinks Stream.Ended (element expr)
  argument : Shrinks Stream.Ended (argument expr)

theorem roundsShrink_of_spells {expr : ExprParser}
    (spells : ∀ power, Spells Expr.spellings (expr power)) : RoundsShrink expr where
  stringPart close := by
    apply shrinks_of_takes
    intro source item target run
    rcases stringPart_ok.1 run with ⟨kind, rfl, -⟩ | ⟨value, read, -⟩ | ⟨-, -, -, ⟨⟩, -⟩
    · exact ⟨_, takes_text kind rfl⟩
    · exact ⟨_, interpolated_spells spells _ _ _ read⟩
  dottedSegment := by
    apply shrinks_of_takes
    intro source item target run
    rcases dottedSegment_ok.1 run with ⟨dot, found, read, -⟩ | ⟨-, ⟨⟩, -⟩
    exact ⟨_, (takes_mark dot rfl).trans (segment_spells spells _ _ _ read).reads⟩
  inheritedName := by
    apply shrinks_of_takes
    intro source item target run
    rcases inheritedName_ok.1 run with ⟨-, ⟨⟩, -⟩ | ⟨-, found, read, -⟩
    exact ⟨_, segment_spells spells _ _ _ read⟩
  binding close := by
    apply shrinks_of_takes
    intro source item target run
    rcases binding_ok.1 run with ⟨-, ⟨⟩, -⟩ | ⟨-, -, comments, s₁, found, taken, parsed, -⟩
    have same : source.Reads 1 s₁ := .of_signs (takeBefore_signs taken)
    rcases parsed with ⟨-, read⟩ | ⟨-, read⟩
    · exact ⟨_, same.trans_takes (inheritance_spells spells comments _ _ _ read)⟩
    · exact ⟨_, same.trans_takes (assignment_spells spells comments _ _ _ read)⟩
  nextParam := by
    apply shrinks_of_takes
    intro source item target run
    rcases nextParam_ok.1 run with ⟨-, ⟨⟩, -⟩ | ⟨-, found, read, -⟩
    exact ⟨_, param_spells spells _ _ _ read⟩
  element := by
    apply shrinks_of_takes
    intro source item target run
    rcases element_ok.1 run with ⟨-, ⟨⟩, -⟩ | ⟨-, found, read, -⟩
    exact ⟨_, spells _ _ _ _ read⟩
  argument := by
    apply shrinks_of_takes
    intro source item target run
    rcases argument_ok.1 run with ⟨-, found, read, -⟩ | ⟨-, ⟨⟩, -⟩
    exact ⟨_, spells _ _ _ _ read⟩

theorem roundsEnd_of_shrink {expr : ExprParser} (shrink : RoundsShrink expr) : RoundsEnd expr where
  stringPart close := endsItself_of_shrinks (shrink.stringPart close)
  dottedSegment := endsItself_of_shrinks shrink.dottedSegment
  inheritedName := endsItself_of_shrinks shrink.inheritedName
  binding close := endsItself_of_shrinks (shrink.binding close)
  nextParam := endsItself_of_shrinks shrink.nextParam
  element := endsItself_of_shrinks shrink.element
  argument := endsItself_of_shrinks shrink.argument

end Parser

end NixSyntax
