/-
Module: NixSyntax.Proofs.Reading
Purpose: What a run reads of its tokens, as a word of a language.
Main exports: Stream.Ended, Stream.Reads, Stream.Takes, Parser.Spells, Parser.many_reads
-/
import NixSyntax.Proofs.Spelling

namespace NixSyntax

/-!
A run reads the signs of the tokens that it passes, and their visible part has
to be a spelling of what it returns.  The end of the input is never passed.
That is the invariant behind everything here: it makes sure that the tokens run
out only where the input ends, so no repetition is cut short by its bound, and
a rule that reads a closing token without looking really finds one.
-/

/-! ## What a run reads -/

/-- The kinds that stay in a spelling. -/
def Kind.isSpelled (kind : Kind) : Bool :=
  kind ∉ [Kind.endOfInput, .parenOpen, .parenClose, .comma]

theorem Sign.completed_ends (signs : List Sign) :
    ∃ last ∈ (completed signs).getLast?, last.kind = .endOfInput := by
  unfold completed
  split
  · next ends => exact ends
  · exact ⟨_, List.getLast?_concat, rfl⟩

namespace Stream

/-- The last token is the end of the input. -/
def Ended (stream : Stream) : Prop :=
  ∃ last ∈ stream.signs.getLast?, last.kind = .endOfInput

/-- Tokens that end with the end of the input are the tokens of a new stream. -/
theorem ended_ofTokens (file : String) {tokens : List Token}
    (ends : ∃ last ∈ tokens.getLast?, last.kind = .endOfInput) :
    (ofTokens file tokens).signs = tokens.map Token.sign ∧ (ofTokens file tokens).Ended := by
  have last : ∃ sign ∈ (tokens.map Token.sign).getLast?, sign.kind = .endOfInput := by
    obtain ⟨last, isLast, atEnd⟩ := ends
    rw [Option.mem_def] at isLast
    rw [List.getLast?_map, isLast]
    exact ⟨last.sign, rfl, atEnd⟩
  have same : (ofTokens file tokens).signs = tokens.map Token.sign := by
    rw [signs_ofTokens, Sign.completed, if_pos last]
  rw [Ended, same]
  exact ⟨rfl, last⟩

/-- A new stream supplies the end of the input if it is missing. -/
theorem ofTokens_ended (file : String) (tokens : List Token) : (ofTokens file tokens).Ended := by
  rw [Ended, signs_ofTokens]
  exact Sign.completed_ends _

/-- From `source` to `target` a word of the language is read, up to invisible
signs, and the end of the input is not passed. -/
def Reads (source : Stream) (language : Language Sign) (target : Stream) : Prop :=
  source.Ended → ∃ passed, source.signs = passed ++ target.signs ∧
    (∀ sign ∈ passed, sign.kind ≠ .endOfInput) ∧ passed.filter Sign.isVisible ∈ language

/-- The same, and at least one token is passed. -/
structure Takes (source : Stream) (language : Language Sign) (target : Stream) : Prop where
  reads : source.Reads language target
  shorter : source.Ended → target.upcoming.length < source.upcoming.length

variable {source middle target : Stream} {first second language : Language Sign}

/-- A stream is never empty, so its last token stays the same. -/
theorem Reads.ended (reads : source.Reads language target) (ended : source.Ended) :
    target.Ended := by
  obtain ⟨passed, split, _⟩ := reads ended
  have present : target.signs ≠ [] := by simp [signs, tokens]
  rwa [Ended, split, List.getLast?_append_of_ne_nil _ present] at ended

theorem Reads.length_le (reads : source.Reads language target) (ended : source.Ended) :
    target.upcoming.length ≤ source.upcoming.length := by
  obtain ⟨passed, split, _⟩ := reads ended
  have lengths := congrArg List.length split
  rw [List.length_append, length_signs, length_signs] at lengths
  omega

theorem Reads.of_signs (same : source.signs = target.signs) : source.Reads 1 target :=
  fun _ => ⟨[], same, by simp, rfl⟩

theorem Reads.refl (stream : Stream) : stream.Reads 1 stream :=
  .of_signs rfl

theorem Reads.trans (before : source.Reads first middle) (after : middle.Reads second target) :
    source.Reads (first * second) target := by
  intro ended
  obtain ⟨passed, split, solid, member⟩ := before ended
  obtain ⟨passedThen, splitThen, solidThen, memberThen⟩ := after (before.ended ended)
  refine ⟨passed ++ passedThen, ?_, ?_, ?_⟩
  · rw [split, splitThen, List.append_assoc]
  · intro sign inside
    rcases List.mem_append.1 inside with early | late
    · exact solid sign early
    · exact solidThen sign late
  · rw [List.filter_append]
    exact Language.append_mem_mul member memberThen

theorem Takes.trans (before : source.Takes first middle) (after : middle.Reads second target) :
    source.Takes (first * second) target := by
  refine ⟨before.reads.trans after, ?_⟩
  intro ended
  have fewer := before.shorter ended
  have rest := after.length_le (before.reads.ended ended)
  omega

theorem Reads.trans_takes (before : source.Reads first middle)
    (after : middle.Takes second target) : source.Takes (first * second) target := by
  refine ⟨before.trans after.reads, ?_⟩
  intro ended
  have rest := before.length_le ended
  have fewer := after.shorter (before.ended ended)
  omega

theorem Takes.mono (takes : source.Takes first target) (less : ∀ word ∈ first, word ∈ second) :
    source.Takes second target := by
  refine ⟨?_, takes.shorter⟩
  intro ended
  obtain ⟨passed, split, solid, member⟩ := takes.reads ended
  exact ⟨passed, split, solid, less _ member⟩

/-! ## Reading one token -/

/-- In an ended stream there is something behind every other token. -/
theorem upcoming_ne_nil (ended : source.Ended) (solid : source.current.kind ≠ .endOfInput) :
    source.upcoming ≠ [] := by
  intro empty
  obtain ⟨last, isLast, atEnd⟩ := ended
  rw [signs, tokens, empty] at isLast
  cases isLast
  exact solid atEnd

theorem signs_advance (more : source.upcoming ≠ []) :
    source.signs = source.current.sign :: source.advance.2.signs := by
  rw [signs, signs, tokens_advance, if_neg more]
  rfl

/-- Reading passes the sign of the current token. -/
theorem takes_advance (solid : source.current.kind ≠ .endOfInput)
    (member : [source.current.sign].filter Sign.isVisible ∈ language) :
    source.Takes language source.advance.2 := by
  refine ⟨?_, ?_⟩
  · intro ended
    refine ⟨[source.current.sign], signs_advance (upcoming_ne_nil ended solid), ?_, member⟩
    intro sign inside
    rw [List.mem_singleton.1 inside]
    exact solid
  · intro ended
    have lengths := congrArg List.length (signs_advance (upcoming_ne_nil ended solid))
    rw [List.length_cons, length_signs, length_signs] at lengths
    omega

theorem takes_sign {accepts : Sign → Prop} (spelled : source.current.kind.isSpelled)
    (accepted : accepts source.current.sign) :
    source.Takes (Spelling.sign accepts) source.advance.2 := by
  simp only [Kind.isSpelled, List.mem_cons, not_or, decide_eq_true_eq] at spelled
  refine takes_advance spelled.1 ?_
  have visible : source.current.sign.isVisible := by
    simpa [Sign.isVisible, Token.sign] using spelled.2
  rw [List.filter_cons_of_pos visible]
  exact ⟨_, rfl, accepted⟩

theorem takes_mark {kind : Kind} (found : source.current.kind = kind) (spelled : kind.isSpelled) :
    source.Takes (Spelling.mark kind) source.advance.2 :=
  takes_sign (found ▸ spelled) found

theorem takes_text {kind : Kind} (found : source.current.kind = kind) (spelled : kind.isSpelled) :
    source.Takes (Spelling.text kind source.current.value) source.advance.2 :=
  takes_sign (found ▸ spelled) ⟨found, rfl⟩

/-- Reading a parenthesis or a comma adds nothing to the spelling. -/
theorem takes_hidden {kind : Kind} (found : source.current.kind = kind)
    (hidden : kind ∈ [Kind.parenOpen, .parenClose, .comma]) :
    source.Takes 1 source.advance.2 := by
  have invisible : ¬ source.current.sign.isVisible := by
    simp only [Sign.isVisible, Token.sign, found, hidden, not_true_eq_false, decide_false]
    exact Bool.false_ne_true
  refine takes_advance ?_ ?_
  · rintro atEnd
    rw [← found, atEnd] at hidden
    simp at hidden
  · rw [List.filter_cons_of_neg invisible]
    exact rfl

theorem kind_eq_of_signs (same : source.signs = target.signs) :
    source.current.kind = target.current.kind :=
  congrArg Sign.kind (List.cons.inj same).1

end Stream

namespace Parser

open NixSyntax.Stream Spelling

variable {α : Type} {source target : Stream}

/-! ## Steps -/

/-- Every successful run takes a spelling of its result. -/
def Spells (language : α → Language Sign) (parser : Parser α) : Prop :=
  ∀ source value target, parser source = .ok value target → source.Takes (language value) target

/-- Taking comments leaves the signs as they are. -/
theorem takeBefore_signs {comments : List Comment} (run : takeBefore source = .ok comments target) :
    source.signs = target.signs := by
  obtain ⟨-, rfl⟩ := takeBefore_ok.1 run
  rfl

theorem takeUnclaimed_signs {comments : List Comment}
    (run : takeUnclaimed source = .ok comments target) : source.signs = target.signs := by
  obtain ⟨-, rfl⟩ := takeUnclaimed_ok.1 run
  rfl

theorem takeAfter_signs {comments : List Comment} (run : takeAfter source = .ok comments target) :
    source.signs = target.signs := by
  rw [takeAfter_eq] at run
  split at run
  · exact takeBefore_signs run
  · exact takeUnclaimed_signs run

/-- A step shrinks a stream if its items take tokens. -/
theorem shrinks_of_takes {step : Parser (Option α)}
    (takes : ∀ source item target, step source = .ok (some item) target →
      ∃ language, source.Takes language target) : Shrinks Stream.Ended step := by
  intro source item target ended run
  obtain ⟨language, taken⟩ := takes source item target run
  exact ⟨taken.reads.ended ended, taken.shorter ended⟩

/-- A step takes a spelling of its item, or returns nothing where it is to stop
and reads nothing there.  Repeated, it takes all items up to such a place. -/
theorem many_reads {step : Parser (Option α)} (language : List α → Language Sign)
    (stop : Stream → Prop) (nil : language [] = 1)
    (cons : ∀ item rest, language (item :: rest) = language [item] * language rest)
    (stops : ∀ source target, step source = .ok none target → source = target ∧ stop source)
    (takes : ∀ source item target, step source = .ok (some item) target →
      source.Takes (language [item]) target)
    {items : List α} (run : many step source = .ok items target) :
    source.Reads (language items) target ∧ (source.Ended → stop target) := by
  have shrinks : Shrinks Stream.Ended step :=
    shrinks_of_takes fun source item target stepped => ⟨_, takes source item target stepped⟩
  suffices both : source.Ended → source.Reads (language items) target ∧ stop target from
    ⟨fun ended => (both ended).1 ended, fun ended => (both ended).2⟩
  intro ended
  have repeats := many_repeats shrinks ended run
  clear run
  induction repeats with
  | stop last =>
      obtain ⟨rfl, here⟩ := stops _ _ last
      exact ⟨nil ▸ .refl _, here⟩
  | more stepped repeated ih =>
      have taken := takes _ _ _ stepped
      obtain ⟨rest, there⟩ := ih (taken.reads.ended ended)
      rw [cons]
      exact ⟨taken.reads.trans rest, there⟩

/-- A repetition that stops only in front of a closing token is followed by
one. -/
theorem reads_close {middle : Stream} {language : Language Sign} {close : Kind}
    (reads : source.Reads language middle) (closes : source.Ended → middle.current.kind = close)
    (spelled : close.isSpelled) : source.Reads (language * mark close) middle.advance.2 := by
  intro ended
  exact reads.trans (takes_mark (closes ended) spelled).reads ended

end Parser

end NixSyntax
