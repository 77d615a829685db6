/-
Module: NixSyntax.Proofs.Lookahead
Purpose: The tokens behind a brace tell a parameter pattern from a set, whatever the braces hold.
Main exports: Stream.kind_peek_advance, Parser.startsPattern_of_pattern,
  Parser.startsPattern_of_attrs, braces_decide
-/
import Mathlib
import NixSyntax.Proofs.Inversion
import NixSyntax.Proofs.Reading

namespace NixSyntax

/-!
Both readings of a brace begin the same way: with its closing brace, or with a
name.  The token behind that name is then different for each of them, and if it
is the closing brace, the token behind this one decides.  So a reading that
succeeds is compared with the window token by token, as far as the window goes;
what stands behind it may be arbitrarily long.
-/

/-! ## Tokens ahead -/

namespace Stream

/-- Reading a token brings all kinds ahead one place closer. -/
theorem kind_peek_advance (stream : Stream) (distance : Nat) :
    (stream.advance.2.peek distance).kind = (stream.peek (distance + 1)).kind := by
  obtain ⟨current, upcoming, unclaimed⟩ := stream
  cases upcoming with
  | nil => cases distance <;> simp [advance, peek, Unclaimed.consume] <;> split <;> rfl
  | cons next rest =>
      simp only [advance, peek, List.getLastD_cons, List.getElem?_cons_succ]

/-- The kind of the next token is known before the current one is read. -/
theorem kind_advance (stream : Stream) :
    stream.advance.2.current.kind = (stream.peek 1).kind :=
  kind_peek_advance stream 0

end Stream

namespace Parser

open NixSyntax.Stream

variable {α : Type} {source middle target : Stream} {expr : ExprParser}

/-- The first round of a repetition, and those behind it. -/
theorem many_ok {step : Parser (Option α)} {items : List α} :
    many step source = .ok items target ↔
      (step source = .ok none target ∧ items = []) ∨
      ∃ item middle rest, step source = .ok (some item) middle ∧
        manyWithin step source.upcoming middle = .ok rest target ∧ items = item :: rest := by
  change manyWithin step (source.current :: source.upcoming) source = _ ↔ _
  exact manyWithin_cons_ok

/-- A repetition that stops at once leaves the stream as it is. -/
theorem manyWithin_stop {step : Parser (Option α)} (stops : step source = .ok none source)
    (bound : List Token) : manyWithin step bound source = .ok [] source := by
  cases bound with
  | nil => rfl
  | cons token bound => exact manyWithin_cons_ok.2 (.inl ⟨stops, rfl⟩)

/-! ## Patterns -/

theorem nextParam_stop (ends : source.current.kind ∈ [Kind.curlyClose, .ellipsis]) :
    nextParam expr source = .ok none source :=
  nextParam_ok.2 (.inl ⟨ends, rfl, rfl⟩)

/-- Where the parameters end with the closing brace, the pattern ends behind
it. -/
theorem pattern_end {isOpen : Bool} {s₂ s₃ : Stream} {inner : List Comment}
    (close : middle.current.kind = .curlyClose) (skipped : skip .ellipsis middle = .ok isOpen s₂)
    (took : takeBefore s₂ = .ok inner s₃) :
    s₃.advance.2.current.kind = (middle.peek 1).kind := by
  rcases skip_ok.1 skipped with ⟨ellipsis, -, -⟩ | ⟨-, -, rfl⟩
  · rw [close] at ellipsis
    cases ellipsis
  · rw [kind_advance, kind_peek_eq (takeBefore_signs took)]

/-- Where a pattern stands in front of a colon or an at sign, the window shows
it. -/
theorem startsPattern_of_pattern {pattern : Pattern}
    (run : Parser.pattern expr source = .ok pattern target)
    (follows : followsPattern target.current.kind) : startsPattern source = true := by
  obtain ⟨-, params, s₁, isOpen, s₂, inner, s₃, read, skipped, took, -, rfl, -⟩ :=
    pattern_ok.1 run
  rcases many_ok.1 read with
    ⟨stopped, -⟩ | ⟨param, behind, others, first, rest, -⟩
  · obtain ⟨ends, -, rfl⟩ | ⟨-, param, -, ⟨⟩⟩ := nextParam_ok.1 stopped
    rw [kind_advance, List.mem_cons, List.mem_singleton] at ends
    rcases ends with close | ellipsis
    · rw [pattern_end ((kind_advance source).trans close) skipped took,
        kind_peek_advance] at follows
      rw [startsPattern, close]
      exact follows
    · rw [startsPattern, ellipsis]
  · obtain ⟨-, ⟨⟩, -⟩ | ⟨name, found, readParam, -⟩ := nextParam_ok.1 first
    obtain ⟨before, t₁, default, t₂, t₃, after, tookBefore, -, readDefault, closes, claimed, -⟩ :=
      param_ok.1 readParam
    have second : t₁.advance.2.current.kind = (source.peek 2).kind := by
      rw [kind_advance, ← kind_peek_eq (takeBefore_signs tookBefore), kind_peek_advance]
    rw [kind_advance] at name
    rcases paramDefault_ok.1 readDefault with ⟨question, -⟩ | ⟨-, -, rfl⟩
    · rw [startsPattern, name, ← second, question]
    · rcases closes with ⟨comma, -⟩ | ⟨close, rfl⟩
      · rw [startsPattern, name, ← second, comma]
      · -- Behind the only parameter the pattern ends, so the token that follows it is the third.
        have same := takeUnclaimed_signs claimed
        have closed : behind.current.kind = .curlyClose := by
          rw [← kind_eq_of_signs same, close]
        rw [manyWithin_stop (nextParam_stop (by simp [closed]))] at rest
        cases rest
        rw [pattern_end closed skipped took, ← kind_peek_eq same, kind_peek_advance,
          ← kind_peek_eq (takeBefore_signs tookBefore), kind_peek_advance] at follows
        rw [startsPattern, name, ← second, close]
        exact follows

/-! ## Sets -/

/-- Behind the first name of a path stands a dot, or the path ends there. -/
theorem attrPath_second {path : List Segment} (name : source.current.kind = .identifier)
    (run : attrPath expr source = .ok path target) :
    (source.peek 1).kind = .dot ∨ target.current.kind = (source.peek 1).kind := by
  obtain ⟨first, s₁, others, readFirst, readOthers, -⟩ := attrPath_ok.1 run
  rcases segment_ok.1 readFirst with ⟨-, rfl, -⟩ | ⟨value, opens, -⟩ | ⟨quote, -⟩
  · rcases many_ok.1 readOthers with ⟨stopped, -⟩ | ⟨segment, behind, rest, dotted, -⟩
    · obtain ⟨-, found, -, ⟨⟩⟩ | ⟨-, -, rfl⟩ := dottedSegment_ok.1 stopped
      exact .inr (kind_advance source)
    · obtain ⟨dot, -⟩ | ⟨-, ⟨⟩, -⟩ := dottedSegment_ok.1 dotted
      exact .inl (kind_advance source ▸ dot)
  · rw [(interpolated_ok.1 opens).1] at name
    cases name
  · rw [quote] at name
    cases name

/-- Behind a name at the front of a set stands a dot or the sign of an
assignment. -/
theorem attrs_second {recursive : Bool} {value : Expr} (name : (source.peek 1).kind = .identifier)
    (run : attrs expr recursive source = .ok value target) :
    (source.peek 2).kind ∈ [Kind.dot, .assign] := by
  obtain ⟨-, entries, inner, s₁, read, -⟩ := attrs_ok.1 run
  obtain ⟨s₂, readEntries, -⟩ := bindings_ok.1 read
  rw [← kind_advance] at name
  rw [← kind_peek_advance]
  rcases many_ok.1 readEntries with ⟨stopped, -⟩ | ⟨entry, behind, others, first, -⟩
  · obtain ⟨close, -⟩ | ⟨-, -, comments, middle, found, -, -, ⟨⟩⟩ := binding_ok.1 stopped
    exact absurd (name.symm.trans close) (by decide)
  · obtain ⟨-, ⟨⟩, -⟩ | ⟨-, -, comments, middle, found, tookBefore, reads, -⟩ := binding_ok.1 first
    have same := takeBefore_signs tookBefore
    rcases reads with ⟨word, -⟩ | ⟨-, assigned⟩
    · exact absurd (name.symm.trans word) (by decide)
    · obtain ⟨path, t₁, -, -, -, readPath, assign, -⟩ := assignment_ok.1 assigned
      rw [kind_peek_eq same]
      rcases attrPath_second (kind_eq_of_signs same ▸ name) readPath with dot | ended
      · simp [dot]
      · simp [← ended, assign]

/-- Where a set stands in front of neither a colon nor an at sign, the window
shows it. -/
theorem startsPattern_of_attrs {recursive : Bool} {value : Expr}
    (run : attrs expr recursive source = .ok value target)
    (other : followsPattern target.current.kind = false) : startsPattern source = false := by
  obtain ⟨-, entries, inner, s₁, read, -, rfl, -⟩ := attrs_ok.1 run
  obtain ⟨s₂, readEntries, took⟩ := bindings_ok.1 read
  rcases many_ok.1 readEntries with ⟨stopped, -⟩ | ⟨entry, behind, others, first, -⟩
  · obtain ⟨close, -, rfl⟩ | ⟨-, -, comments, middle, found, -, -, ⟨⟩⟩ := binding_ok.1 stopped
    rw [kind_advance, ← kind_peek_eq (takeBefore_signs took), kind_peek_advance] at other
    rw [kind_advance] at close
    rw [startsPattern, close]
    exact other
  · obtain ⟨-, ⟨⟩, -⟩ | ⟨-, start, -⟩ := binding_ok.1 first
    rw [kind_advance] at start
    simp only [Kind.bindingStart, List.mem_cons, List.not_mem_nil, or_false] at start
    rcases start with name | word | interpolation | quote
    · have second := attrs_second name run
      simp only [List.mem_cons, List.not_mem_nil, or_false] at second
      rcases second with dot | assign
      · rw [startsPattern, name, dot]
      · rw [startsPattern, name, assign]
    · rw [startsPattern, word]
    · rw [startsPattern, interpolation]
    · rw [startsPattern, quote]

end Parser

/-! ## Both readings -/

/-- Wherever a brace stands, three tokens behind it decide what it opens.  If a
pattern can be read there up to a colon or an at sign, they show a pattern; if a
set can be read there and neither of these follows, they show a set.  So the
rule for braces reads every function and every set that can be read there. -/
theorem braces_decide (expr : ExprParser) (stream : Stream)
    (brace : stream.current.kind = .curlyOpen) :
    (∀ pattern target, Parser.pattern expr stream = .ok pattern target →
      target.current.kind ∈ [Kind.colon, .atSign] → Parser.startsPattern stream = true) ∧
    (∀ value target, Parser.attrs expr false stream = .ok value target →
      target.current.kind ∉ [Kind.colon, .atSign] → Parser.startsPattern stream = false) ∧
    (∀ value target, Parser.lambda expr stream = .ok value target →
      Parser.braces expr stream = .ok value target) ∧
    (∀ value target, Parser.attrs expr false stream = .ok value target →
      target.current.kind ∉ [Kind.colon, .atSign] →
      Parser.braces expr stream = .ok value target) := by
  have follows_iff : ∀ kind, Parser.followsPattern kind ↔ kind ∈ [Kind.colon, .atSign] := by
    intro kind
    cases kind <;> decide
  have pattern : ∀ pattern target, Parser.pattern expr stream = .ok pattern target →
      target.current.kind ∈ [Kind.colon, .atSign] → Parser.startsPattern stream = true :=
    fun _ _ run follows => Parser.startsPattern_of_pattern run ((follows_iff _).2 follows)
  have set : ∀ value target, Parser.attrs expr false stream = .ok value target →
      target.current.kind ∉ [Kind.colon, .atSign] → Parser.startsPattern stream = false := by
    intro value target run other
    rw [← follows_iff, Bool.not_eq_true] at other
    exact Parser.startsPattern_of_attrs run other
  refine ⟨pattern, set, ?_, fun value target run other =>
    Parser.braces_ok.2 (.inr ⟨set value target run other, run⟩)⟩
  intro value target run
  refine Parser.braces_ok.2 (.inl ⟨?_, run⟩)
  rcases Parser.lambda_ok.1 run with ⟨name, -⟩ | ⟨-, read⟩
  · exact absurd (brace.symm.trans name) (by decide)
  · obtain ⟨given, s₁, params, s₂, whole, s₃, body, before, readPattern, after, colon, -⟩ :=
      Parser.patternLambda_ok.1 read
    obtain ⟨name, -⟩ | ⟨-, -, rfl⟩ := Parser.wholeBefore_ok.1 before
    · exact absurd (brace.symm.trans name) (by decide)
    · apply pattern params s₂ readPattern
      rcases Parser.wholeAfter_ok.1 after with ⟨sign, -⟩ | ⟨-, -, rfl⟩
      · simp [sign]
      · simp [colon]

/-- A function with a set as its default, and a set with a function in it. -/
theorem braces_decide_nested :
    (∃ tokens pattern target,
      tokenize "a.nix" "\x7ba ? \x7bb = c;\x7d\x7d @ s: a" = .ok tokens ∧
      Parser.pattern (Parser.expression (.standard .lowest) 4 3) (.ofTokens "a.nix" tokens) =
        .ok pattern target ∧
      target.current.kind = .atSign ∧
      Parser.startsPattern (.ofTokens "a.nix" tokens) = true) ∧
    ∃ tokens value target,
      tokenize "a.nix" "\x7ba = \x7bb\x7d: c;\x7d.a" = .ok tokens ∧
      Parser.attrs (Parser.expression (.standard .lowest) 4 3) false (.ofTokens "a.nix" tokens) =
        .ok value target ∧
      target.current.kind = .dot ∧
      Parser.braces (Parser.expression (.standard .lowest) 4 3) (.ofTokens "a.nix" tokens) =
        .ok value target := by
  have function : ∃ tokens pattern target,
      tokenize "a.nix" "\x7ba ? \x7bb = c;\x7d\x7d @ s: a" = .ok tokens ∧
      (Stream.ofTokens "a.nix" tokens).current.kind = .curlyOpen ∧
      Parser.pattern (Parser.expression (.standard .lowest) 4 3) (.ofTokens "a.nix" tokens) =
        .ok pattern target ∧ target.current.kind = .atSign :=
    ⟨_, _, _, by cbv, by cbv, by cbv, by cbv⟩
  have set : ∃ tokens value target,
      tokenize "a.nix" "\x7ba = \x7bb\x7d: c;\x7d.a" = .ok tokens ∧
      (Stream.ofTokens "a.nix" tokens).current.kind = .curlyOpen ∧
      Parser.attrs (Parser.expression (.standard .lowest) 4 3) false (.ofTokens "a.nix" tokens) =
        .ok value target ∧ target.current.kind = .dot :=
    ⟨_, _, _, by cbv, by cbv, by cbv, by cbv⟩
  obtain ⟨tokens, pattern, target, done, brace, run, sign⟩ := function
  obtain ⟨tokens', value, target', done', brace', run', dot⟩ := set
  exact ⟨⟨tokens, pattern, target, done, run, sign,
      (braces_decide _ _ brace).1 pattern target run (by simp [sign])⟩,
    ⟨tokens', value, target', done', run', dot,
      (braces_decide _ _ brace').2.2.2 value target' run' (by simp [dot])⟩⟩

end NixSyntax
