/-
Module: NixSyntax.Proofs.Moves
Purpose: Runs as series of moves, none of which reads the end of the input.
Main exports: Stream.Move, Stream.Moves, Stream.Moves.passed, Stream.SparesEnd, Stream.Passed,
  Stream.Reaches, Watch.progress
-/
import NixSyntax.Proofs.ParallelRules

namespace NixSyntax

/-!
The last token of a stream is not passed by reading it: it stays, but without its
comments.  So a parser could read the end of the input over and over.  To rule
that out a run is taken as a series of moves, and none of them reads the end of
the input.  A move that hands out comments leaves alone those behind a token,
which only reading takes, so the last token shows whether it has been read.
-/

open Relation (ReflTransGen)

namespace Stream

/-! ## Moves -/

/-- What a run does to a stream in one step. -/
inductive Move : Stream → Stream → Prop where
  /-- A token that is not the end of the input is read. -/
  | read {stream : Stream} (solid : stream.current.kind ≠ .endOfInput) :
      Move stream stream.advance.2
  /-- Comments are handed out: unclaimed ones, and some above the current token. -/
  | claim {stream : Stream} (leading : List Comment) (unclaimed : Unclaimed) :
      Move stream { stream with current := { stream.current with leading }, unclaimed }

/-- One stream becomes the other in any number of moves. -/
def Moves : Stream → Stream → Prop :=
  ReflTransGen Move

/-- The tokens that are still to be read, without the comments above them. -/
def kept (stream : Stream) : List Token :=
  stream.tokens.map fun token => { token with leading := [] }

variable {origin source target : Stream}

theorem Move.passed (move : source.Move target) (ended : source.Ended) :
    ∃ passed, source.kept = passed ++ target.kept ∧ ∀ token ∈ passed, token.kind ≠ .endOfInput := by
  cases move with
  | read solid =>
      have more := upcoming_ne_nil ended solid
      refine ⟨[{ source.current with leading := [] }], ?_, ?_⟩
      · rw [kept, kept, tokens_advance, if_neg more]
        rfl
      · intro token member
        rw [List.mem_singleton.1 member]
        exact solid
  | claim leading unclaimed => exact ⟨[], rfl, nofun⟩

theorem signs_eq_map_kept (stream : Stream) : stream.signs = stream.kept.map Token.sign := by
  simp [signs, kept, Token.sign]

theorem ended_of_kept {passed : List Token} (split : source.kept = passed ++ target.kept)
    (ended : source.Ended) : target.Ended := by
  have present : target.kept.map Token.sign ≠ [] := by simp [kept, tokens]
  rwa [Ended, signs_eq_map_kept, split, List.map_append, List.getLast?_append_of_ne_nil _ present,
    ← signs_eq_map_kept] at ended

namespace Moves

theorem refl (stream : Stream) : stream.Moves stream :=
  ReflTransGen.refl

/-- The tokens that were passed are not the end of the input, and the others are
still there, with the comments behind them. -/
theorem passed (moves : source.Moves target) (ended : source.Ended) :
    ∃ passed, source.kept = passed ++ target.kept ∧ ∀ token ∈ passed, token.kind ≠ .endOfInput := by
  induction moves with
  | refl => exact ⟨[], rfl, nofun⟩
  | tail _ move ih =>
      obtain ⟨first, split, solid⟩ := ih
      obtain ⟨second, splitThen, solidThen⟩ := move.passed (ended_of_kept split ended)
      exact ⟨first ++ second, by rw [split, splitThen, List.append_assoc],
        List.forall_mem_append.2 ⟨solid, solidThen⟩⟩

theorem ended (moves : source.Moves target) (ended : source.Ended) : target.Ended := by
  obtain ⟨_, split, -⟩ := moves.passed ended
  exact ended_of_kept split ended

theorem length_le (moves : source.Moves target) (ended : source.Ended) :
    target.upcoming.length ≤ source.upcoming.length := by
  obtain ⟨passed, split, -⟩ := moves.passed ended
  have lengths := congrArg List.length split
  simp only [kept, tokens, List.length_append, List.length_map, List.length_cons] at lengths
  omega

/-- What stands last has not been read. -/
theorem last_kept (moves : source.Moves target) (ended : source.Ended) :
    target.kept.getLast? = source.kept.getLast? := by
  obtain ⟨passed, split, -⟩ := moves.passed ended
  have present : target.kept ≠ [] := by simp [kept, tokens]
  rw [split, List.getLast?_append_of_ne_nil _ present]

end Moves

/-- The end of the input is not read on the way from one stream to the other, and
nothing behind it is reached. -/
structure SparesEnd (source target : Stream) : Prop where
  moves : source.Moves target
  ended : target.Ended
  last : target.kept.getLast? = source.kept.getLast?

theorem Moves.sparesEnd (moves : source.Moves target) (ended : source.Ended) :
    source.SparesEnd target :=
  ⟨moves, moves.ended ended, moves.last_kept ended⟩

/-- Fewer tokens are left than in `origin`. -/
def Passed (origin stream : Stream) : Prop :=
  stream.upcoming.length < origin.upcoming.length

/-- Reading a token that is not the end of the input passes it. -/
theorem passed_advance (ended : source.Ended) (solid : source.current.kind ≠ .endOfInput) :
    source.Passed source.advance.2 :=
  (takes_advance solid trivial : source.Takes ⊤ _).shorter ended

theorem Passed.signs_lt (passed : origin.Passed source) :
    source.signs.length < origin.signs.length := by
  rw [length_signs, length_signs]
  exact Nat.succ_lt_succ passed

/-- From `origin` a stream was reached by moves, and a token was passed if one has been
read. -/
structure Reaches (origin : Stream) (started : Bool) (stream : Stream) : Prop where
  ended : origin.Ended
  moves : origin.Moves stream
  passed : started = true → origin.Passed stream

theorem Reaches.start (ended : source.Ended) : source.Reaches false source :=
  ⟨ended, .refl source, Bool.noConfusion⟩

end Stream

/-- A run makes moves only, and passes the tokens that it reads. -/
def Watch.progress (origin : Stream) : Watch where
  Good started _ stream := origin.Reaches started stream
  Blame _ target := origin.Moves target
  Cut _ _ := False
  ended reaches := reaches.moves.ended reaches.ended
  recede reaches := ⟨reaches.ended, reaches.moves, fun _ => reaches.passed rfl⟩
  advance reaches solid _ := by
    have ended := reaches.moves.ended reaches.ended
    refine ⟨reaches.ended, reaches.moves.tail (.read solid), fun _ => ?_⟩
    exact Nat.lt_of_lt_of_le (Stream.passed_advance ended solid)
      (reaches.moves.length_le reaches.ended)
  claim reaches leading unclaimed :=
    ⟨reaches.ended, reaches.moves.tail (.claim leading unclaimed), reaches.passed⟩
  refuse _ _ _ reachesThen _ := reachesThen.moves
  stray reaches _ _ _ := reaches.moves

end NixSyntax
