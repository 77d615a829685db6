/-
Module: NixSyntax.Proofs.DepthLimit
Purpose: A smaller limit of depth only turns results into the fault that it is exceeded.
Main exports: Watch.curtail, Parser.continuation_curtails, Parser.expression_curtails,
  parseTokens_curtailed
-/
import Mathlib
import NixSyntax.Proofs.ParallelRules

namespace NixSyntax

/-!
An expression takes a level when it is entered and one more for each operator
that goes on with it.  What is read behind a level lies behind a token of its
own, except for the first argument of a function: there two levels share one
token.  So twice the number of tokens is always enough.

A run is compared with the same run under a larger limit.  Until it gives up, the two
are the same.  If there is `room`, that is if no more than `count` tokens are left, it
never does.
-/

/-- Up to where it gives up a run is the same as one under a larger limit.  It does not
give up while no more than `count` tokens are left, if there is room for as many. -/
def Watch.curtail (limit : Nat) (room : Prop) (count : Nat) : Watch where
  Good started _ stream :=
    stream.Ended ∧ (room → stream.signs.length + started.toNat ≤ count)
  Blame fault _ := room → ∀ other, fault.cause ≠ .tooDeep other
  Cut fault _ := fault.cause = .tooDeep limit ∧ ¬ room
  ended good := good.1
  recede {started _ _} good := by
    refine ⟨good.1, fun space => ?_⟩
    have few := good.2 space
    cases started
    · exact Nat.le_of_succ_le few
    · exact few
  advance {started _ _ stream} good solid _ := by
    have taken : stream.Takes ⊤ stream.advance.2 := Stream.takes_advance solid trivial
    have fewer := taken.shorter good.1
    refine ⟨taken.reads.ended good.1, fun space => ?_⟩
    have few := good.2 space
    rw [Stream.length_signs] at few ⊢
    simp only [Bool.toNat_true]
    omega
  claim good _ _ := good
  refuse complaint _ _ _ _ := by
    cases complaint <;> exact fun _ _ => Cause.noConfusion
  stray _ _ _ _ := fun _ _ => Cause.noConfusion

namespace Parser

open NixSyntax.Stream

variable {α : Type} {fallback : FallbackLevel} {limit limit' count : Nat} {room : Prop}
  {started : Bool} {held held' : List Kind}

/-- Behind a token there is room for one token less. -/
theorem curtails_behind {first second : Parser α}
    (sees : (Watch.curtail limit room (count - 1)).Sees ⟨false, held, none⟩ ⟨started, held', none⟩
      first second) :
    (Watch.curtail limit room count).Sees (.behind held) (.behind held') first second := by
  rintro _ source ⟨⟨rfl, ended, few⟩, -⟩
  have fewer : room → source.signs.length + false.toNat ≤ count - 1 :=
    fun space => Nat.le_pred_of_lt (few space)
  have ends := sees source source ⟨⟨rfl, ended, fewer⟩, nofun⟩
  generalize first source = run at ends ⊢
  generalize second source = run' at ends ⊢
  cases ends with
  | ok equal reached =>
      obtain ⟨⟨same, endedThen, left⟩, -⟩ := reached
      refine .ok equal ⟨⟨same, endedThen, fun space => ?_⟩, nofun⟩
      have before := few space
      have behind := left space
      simp only [Bool.toNat_true] at before ⊢
      omega
  | error failed => exact .error failed
  | cut cut => exact .cut cut

/-- Without levels a parser gives up, as it may where there is no room. -/
theorem fail_curtails {other : Parser α} {pre post : Stage} :
    (Watch.curtail limit room 0).Sees pre post (fail (.tooDeep limit)) other := by
  rintro _ source ⟨⟨rfl, -, few⟩, -⟩
  refine .cut ⟨rfl, fun space => ?_⟩
  have none := few space
  rw [length_signs] at none
  omega

theorem continuation_curtails {levels levels' : Nat} (more : levels ≤ levels')
    (enough : 2 * count ≤ levels)
    (nested : ∀ fewer fewer' count, fewer < levels → fewer ≤ fewer' → 2 * count ≤ fewer + 1 →
      ∀ power {held}, Calm held →
        (Watch.curtail limit room count).Sees ⟨false, held, none⟩ (.behind held)
          (expression (.standard fallback) limit fewer power)
          (expression (.standard fallback) limit' fewer' power))
    (calm : Calm held) (power : Power) (left : Expr) :
    (Watch.curtail limit room count).Sees ⟨false, held, none⟩ ⟨false, held, none⟩
      (continuation (.standard fallback) limit levels power left)
      (continuation (.standard fallback) limit' levels' power left) := by
  induction levels generalizing levels' count left power with
  | zero =>
      obtain rfl : count = 0 := by omega
      rw [continuation, continuation]
      apply Comparison.Parallel.choose _ (.inl rfl)
      intro kind
      split
      · exact .pure rfl
      · apply Comparison.Parallel.ite
        · intro _
          exact fail_curtails
        · intro _
          exact .pure rfl
  | succ levels ih =>
      obtain ⟨levels', rfl⟩ := Nat.exists_eq_add_of_lt more
      rw [continuation_succ, continuation_succ]
      have here := nested levels (levels + levels') count (Nat.lt_succ_self levels) (by omega)
        (by omega)
      have behind := nested levels (levels + levels') (count - 1) (Nat.lt_succ_self levels)
        (by omega) (by omega)
      apply joining_parallel calm (expression_spells fallback limit levels)
      · intro power held calm
        exact curtails_behind (behind power calm)
      · rintro power left _ rfl
        apply curtails_behind
        apply ih (by omega) (by omega)
        intro fewer fewer' count less
        exact nested fewer fewer' count (Nat.lt_succ_of_lt less)
      · exact here .application calm
      · rfl

theorem expression_curtails {levels levels' : Nat} (more : levels ≤ levels')
    (enough : 2 * count ≤ levels + 1) (calm : Calm held) (power : Power) :
    (Watch.curtail limit room count).Sees ⟨false, held, none⟩ (.behind held)
      (expression (.standard fallback) limit levels power)
      (expression (.standard fallback) limit' levels' power) := by
  induction levels using Nat.strongRecOn generalizing levels' count power held with
  | ind levels ih =>
      cases levels with
      | zero =>
          obtain rfl : count = 0 := by omega
          rw [expression]
          exact fail_curtails
      | succ levels =>
          obtain ⟨levels', rfl⟩ := Nat.exists_eq_add_of_lt more
          rw [expression_succ, expression_succ]
          apply opening_parallel calm (expression_spells fallback limit levels)
          · intro power held calm
            apply curtails_behind
            exact ih levels (Nat.lt_succ_self levels) (by omega) (by omega) calm power
          · rintro power left _ rfl
            apply curtails_behind
            apply continuation_curtails (by omega) (by omega) _ calm
            intro fewer fewer' count less more enough power held calm
            exact ih fewer (Nat.lt_succ_of_lt less) more enough calm power

theorem document_curtails (fallback : FallbackLevel) (more : limit ≤ limit')
    (enough : 2 * count ≤ limit + 1) :
    (Watch.curtail limit room count).Sees ⟨false, [], none⟩ (.behind [])
      (Parser.document (.standard fallback) limit)
      (Parser.document (.standard fallback) limit') :=
  document_parallel Watch.even calm_nil (expression_curtails more enough calm_nil .base)

end Parser

/-! ## Whole documents -/

/-- What is parsed under a limit is parsed to the same under a larger one. -/
theorem parse_deeper {options : Options} {more : Nat} {source : String} {document : Document}
    (deeper : options.maxDepth ≤ more) (parsed : parse options source = .ok document) :
    parse { options with maxDepth := more } source = .ok document := by
  obtain ⟨tokens, split, read⟩ := parse_ok.1 parsed
  obtain ⟨target, run⟩ := parseTokens_ok.1 read
  have curtailed : (Watch.curtail options.maxDepth False 0).Sees ⟨false, [], none⟩ (.behind [])
      (Parser.document (.standard options.fallback) options.maxDepth)
      (Parser.document (.standard options.fallback) more) :=
    Parser.document_curtails options.fallback deeper (Nat.zero_le _)
  have start := Stream.ofTokens_ended options.file tokens
  refine parse_ok.2 ⟨tokens, split, parseTokens_ok.2 ⟨target, ?_⟩⟩
  exact (curtailed.of_ok ⟨start, False.elim⟩ nofun run).1

/-- A text that is parsed to another document is not parsed to this one, however
deep expressions may nest. -/
theorem parse_ne {options : Options} {source : String} {document other : Document}
    (parsed : parse options source = .ok other) (differs : other ≠ document) (depth : Nat) :
    parse { options with maxDepth := depth } source ≠ .ok document := by
  intro same
  rcases le_total options.maxDepth depth with deeper | shallower
  · rw [parse_deeper deeper parsed] at same
    exact differs (Except.ok.inj same)
  · have again := parse_deeper shallower same
    rw [parsed] at again
    exact differs (Except.ok.inj again)

/-- A limit of depth either is exceeded or has no influence on the result, and
twice as many levels as there are tokens are always enough. -/
theorem parseTokens_curtailed (options : Options) (tokens : List Token)
    (ends : ∃ last ∈ tokens.getLast?, last.kind = .endOfInput) :
    (∀ more, options.maxDepth ≤ more →
      (∃ fault, parseTokens options tokens = .error fault ∧
        fault.cause = .tooDeep options.maxDepth) ∨
      parseTokens options tokens = parseTokens { options with maxDepth := more } tokens) ∧
    (2 * tokens.length ≤ options.maxDepth →
      ∀ fault, parseTokens options tokens = .error fault →
        ∀ limit, fault.cause ≠ .tooDeep limit) := by
  obtain ⟨same, ended⟩ := Stream.ended_ofTokens options.file ends
  constructor
  · intro more larger
    have curtailed : (Watch.curtail options.maxDepth False 0).Sees ⟨false, [], none⟩ (.behind [])
        (Parser.document (.standard options.fallback) options.maxDepth)
        (Parser.document (.standard options.fallback) more) :=
      Parser.document_curtails options.fallback larger (Nat.zero_le _)
    cases parsed : parseTokens options tokens with
    | ok document =>
        obtain ⟨target, run⟩ := parseTokens_ok.1 parsed
        have run' := (curtailed.of_ok ⟨ended, False.elim⟩ nofun run).1
        exact .inr (parseTokens_ok.2 ⟨target, run'⟩).symm
    | error fault =>
        obtain ⟨target, run⟩ := parseTokens_error.1 parsed
        rcases curtailed.of_error ⟨ended, False.elim⟩ nofun run with ⟨run', -⟩ | ⟨deep, -⟩
        · exact .inr (parseTokens_error.2 ⟨target, run'⟩).symm
        · exact .inl ⟨fault, rfl, deep⟩
  · intro enough fault failed
    have curtailed : (Watch.curtail options.maxDepth True tokens.length).Sees ⟨false, [], none⟩
        (.behind []) (Parser.document (.standard options.fallback) options.maxDepth)
        (Parser.document (.standard options.fallback) options.maxDepth) :=
      Parser.document_curtails options.fallback (le_refl _) (Nat.le_succ_of_le enough)
    have few : (Stream.ofTokens options.file tokens).signs.length ≤ tokens.length := by
      rw [same, List.length_map]
    obtain ⟨target, run⟩ := parseTokens_error.1 failed
    rcases curtailed.of_error ⟨ended, fun _ => few⟩ nofun run with ⟨-, shallow⟩ | ⟨-, crowded⟩
    · exact shallow trivial
    · exact absurd trivial crowded

/-- The four tokens of a list with one element never need more than eight
levels. -/
theorem parseTokens_curtailed_list :
    ∃ tokens, tokenize "a.nix" "[ a ]" = .ok tokens ∧
      (∃ last ∈ tokens.getLast?, last.kind = .endOfInput) ∧ 2 * tokens.length ≤ 8 ∧
      parseTokens { maxDepth := 8 } tokens = parseTokens { maxDepth := 9 } tokens ∧
      ∀ fault, parseTokens { maxDepth := 8 } tokens = .error fault →
        ∀ limit, fault.cause ≠ .tooDeep limit := by
  obtain ⟨tokens, done, ends, few⟩ : ∃ tokens, tokenize "a.nix" "[ a ]" = .ok tokens ∧
      (∃ last ∈ tokens.getLast?, last.kind = .endOfInput) ∧ 2 * tokens.length ≤ 8 := by
    refine ⟨_, by cbv, ⟨_, rfl, rfl⟩, by decide⟩
  obtain ⟨cuts, room⟩ := parseTokens_curtailed { maxDepth := 8 } tokens ends
  rcases cuts 9 (by decide) with ⟨fault, failed, deep⟩ | same
  · exact absurd deep (room few fault failed 8)
  · exact ⟨tokens, done, ends, few, same, room few⟩

end NixSyntax
