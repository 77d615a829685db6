/-
Module: NixSyntax.Proofs.Parenthesized
Purpose: Parentheses around a whole text leave no trace and cost one level of depth.
Main exports: Stream.Capped, Comparison.capped, Parser.expression_carries, parseTokens_parenthesized
-/
import NixSyntax.Proofs.Forward
import NixSyntax.Proofs.ParallelRules
import NixSyntax.Proofs.Reread

namespace NixSyntax

/-!
No rule reads a closing parenthesis unless it has read the opening one, and none
reads the end of the input.  So where a run returns something at the end of the
input, the same steps can be made in front of a closing parenthesis, and
whatever looks at the next token decides the same.  Only results are carried
over: a run that fails at the end of the input may well go on elsewhere.

The group rule reads the whole text as one nested expression, and behind the closing
parenthesis there is nothing left that could go on with it.
-/

/-! ## Streams with a parenthesis at the end -/

/-- The second stream holds a closing parenthesis in front of the end of the
input, and is like the first one otherwise. -/
structure Stream.Capped (source source' : Stream) : Prop where
  quiet : source.Quiet
  quiet' : source'.Quiet
  split : ∃ front last close last',
    source.tokens = front ++ [last] ∧ source'.tokens = front ++ [close, last'] ∧
    (∀ token ∈ front, token.kind ≠ .endOfInput) ∧
    last.kind = .endOfInput ∧ close.kind = .parenClose ∧ last'.kind = .endOfInput

/-- The last token stands for all that are further ahead. -/
theorem Stream.peek_of_tokens {stream : Stream} {front : List Token} {last : Token}
    (shape : stream.tokens = front ++ [last]) (distance : Nat) :
    stream.peek distance = (front[distance]?).getD last := by
  have isLast : stream.upcoming.getLastD stream.current = last := by
    have same := congrArg List.getLast? shape
    rw [tokens, List.getLast?_cons, List.getLast?_concat] at same
    simpa using same
  rw [peek, isLast, ← tokens, shape]
  rcases Nat.lt_or_ge distance front.length with inside | outside
  · rw [List.getElem?_append_left inside]
  · rw [List.getElem?_append_right outside, List.getElem?_eq_none outside]
    cases distance - front.length <;> rfl

/-- Reading where no token has comments. -/
theorem Stream.Quiet.advance_tokens {stream : Stream} (quiet : stream.Quiet)
    (more : stream.upcoming ≠ []) :
    stream.advance.2.Quiet ∧ stream.advance.2.tokens = stream.upcoming := by
  have tokens : stream.advance.2.tokens = stream.upcoming := by
    rw [tokens_advance, if_neg more]
  obtain ⟨token, rest, shape⟩ := List.exists_cons_of_ne_nil more
  have known : stream.signs = stream.current.sign :: token.sign :: rest.map Token.sign := by
    rw [signs, Stream.tokens, shape]
    rfl
  exact ⟨(quiet.advance known).1, tokens⟩

namespace Stream.Capped

variable {source source' : Stream}

theorem ended (capped : source.Capped source') : source.Ended := by
  obtain ⟨front, last, -, -, tokens, -, -, atEnd, -⟩ := capped.split
  refine ⟨last.sign, ?_, atEnd⟩
  rw [signs, tokens, List.map_append]
  exact List.getLast?_concat

theorem length_le (capped : source.Capped source') :
    source.tokens.length ≤ source'.tokens.length := by
  obtain ⟨front, last, close, last', tokens, tokens', -⟩ := capped.split
  simp [tokens, tokens']

/-- The tokens ahead are of the same kind, or one of them is the end of the input
and the other one the parenthesis. -/
theorem kind_peek (capped : source.Capped source') (distance : Nat) :
    (source'.peek distance).kind = (source.peek distance).kind ∨
      (source.peek distance).kind = .endOfInput ∧
        (source'.peek distance).kind = .parenClose := by
  obtain ⟨front, last, close, last', tokens, tokens', -, atEnd, closes, atEnd'⟩ := capped.split
  have longer : source'.tokens = (front ++ [close]) ++ [last'] := by simpa using tokens'
  rw [peek_of_tokens tokens, peek_of_tokens longer]
  rcases Nat.lt_trichotomy distance front.length with inside | rfl | behind
  · simp [inside, List.getElem?_append]
  · simp [atEnd, closes]
  · have past : front[distance]? = none := List.getElem?_eq_none behind.le
    have past' : (front ++ [close])[distance]? = none :=
      List.getElem?_eq_none (by rw [List.length_append]; exact behind)
    rw [past, past', Option.getD_none, Option.getD_none, atEnd, atEnd']
    exact .inl rfl

/-- What is not at its end stands at the same token. -/
theorem current (capped : source.Capped source') (solid : source.current.kind ≠ .endOfInput) :
    source'.current = source.current := by
  obtain ⟨front, last, close, last', tokens, tokens', -, atEnd, -⟩ := capped.split
  cases front with
  | nil => exact absurd ((List.cons.inj tokens).1 ▸ atEnd) solid
  | cons token front => exact (List.cons.inj tokens').1.trans (List.cons.inj tokens).1.symm

/-- What is at its end stands at the parenthesis. -/
theorem at_end (capped : source.Capped source') (atEnd : source.current.kind = .endOfInput) :
    source'.current.kind = .parenClose := by
  obtain ⟨front, last, close, last', tokens, tokens', solid, -, closes, -⟩ := capped.split
  cases front with
  | nil => exact (List.cons.inj tokens').1 ▸ closes
  | cons token front =>
      rw [← (List.cons.inj tokens).1] at solid
      exact absurd atEnd (solid _ List.mem_cons_self)

theorem advance (capped : source.Capped source') (solid : source.current.kind ≠ .endOfInput) :
    source.advance.2.Capped source'.advance.2 := by
  obtain ⟨front, last, close, last', tokens, tokens', solids, ends⟩ := capped.split
  cases front with
  | nil => exact absurd ((List.cons.inj tokens).1 ▸ ends.1) solid
  | cons token front =>
      have rest : source.upcoming = front ++ [last] := (List.cons.inj tokens).2
      have rest' : source'.upcoming = front ++ [close, last'] := (List.cons.inj tokens').2
      obtain ⟨quiet, known⟩ := capped.quiet.advance_tokens (by simp [rest])
      obtain ⟨quiet', known'⟩ := capped.quiet'.advance_tokens (by simp [rest'])
      exact ⟨quiet, quiet', front, last, close, last', known.trans rest, known'.trans rest',
        fun token member => solids token (List.mem_cons_of_mem _ member), ends⟩

/-- Behind the parenthesis stands the end of the input. -/
theorem past_end (capped : source.Capped source') (atEnd : source.current.kind = .endOfInput) :
    source'.advance.2.Quiet ∧ source'.advance.2.current.kind = .endOfInput := by
  obtain ⟨front, last, close, last', tokens, tokens', solid, -, -, atEnd'⟩ := capped.split
  cases front with
  | nil =>
      have rest : source'.upcoming = [last'] := (List.cons.inj tokens').2
      obtain ⟨quiet, known⟩ := capped.quiet'.advance_tokens (by simp [rest])
      exact ⟨quiet, (List.cons.inj (known.trans rest)).1 ▸ atEnd'⟩
  | cons token front =>
      rw [← (List.cons.inj tokens).1] at solid
      exact absurd atEnd (solid _ List.mem_cons_self)

end Stream.Capped

/-- A run up to the end of the input, and one up to a closing parenthesis.  Nothing is
said of runs that fail. -/
def Comparison.capped : Comparison where
  view := .whole
  Near _ _ source source' := source.Capped source'
  Failed _ _ _ _ := True
  Cut _ _ := True
  ended capped := capped.ended
  length_le capped := Nat.le_of_succ_le_succ capped.length_le
  recede capped := capped
  sign capped solid := congrArg Token.sign (capped.current solid)
  kind_peek capped distance := capped.kind_peek distance
  uneven _ _ _ := trivial
  advance capped solid _ := capped.advance solid
  claim := by
    intro take claiming _ _ source source' capped
    have silent : ∀ {source : Stream}, source.Quiet → take source = .ok [] source := by
      intro source quiet
      cases claiming with
      | before => exact Parser.takeBefore_quiet quiet
      | after => exact Parser.takeAfter_quiet quiet
      | unclaimed => exact Parser.takeUnclaimed_quiet quiet
      | detached => exact Parser.takeDetached_quiet quiet
    exact ⟨[], source, [], source', silent capped.quiet, silent capped.quiet', rfl, capped⟩
  refuse _ _ _ _ _ := trivial
  stray _ _ _ _ := trivial

namespace Parser

open NixSyntax.Stream

variable {fallback : FallbackLevel} {limit levels : Nat} {source source' target : Stream}
  {value : Expr}

/-- Where an expression has been read up to the end of the input, the same one is
read up to a closing parenthesis. -/
theorem expression_carries (limit' : Nat) {power : Power} (capped : source.Capped source')
    (run : expression (.standard fallback) limit levels power source = .ok value target) :
    ∃ target', expression (.standard fallback) limit' levels power source' = .ok value target' ∧
      target.Capped target' := by
  have parallel : Comparison.capped.Parallel (View.whole.Same Expr.plain) ⟨false, [], none⟩
      (.behind []) (expression (.standard fallback) limit levels power)
      (expression (.standard fallback) limit' levels power) :=
    expression_parallel calm_nil (fun _ _ _ _ => .cut trivial) levels power
  obtain ⟨_, target', run', rfl, reached, -⟩ := (parallel source source' ⟨capped, nofun⟩).of_ok run
  exact ⟨target', run', reached⟩

/-- A group at the end of the input takes one more level. -/
theorem expression_group (quiet : source.Quiet) (opens : source.current.kind = .parenOpen)
    (read : expression (.standard fallback) limit levels .base source.advance.2 = .ok value target)
    (closes : target.current.kind = .parenClose) (quietThen : target.advance.2.Quiet)
    (atEnd : target.advance.2.current.kind = .endOfInput) :
    expression (.standard fallback) limit (levels + 1) .base source =
      .ok value target.advance.2 := by
  refine expression_succ_ok.2 ⟨[], source, .group, value, _, [], _, takeBefore_quiet quiet,
    by rw [opens]; rfl, group_ok.2 ⟨target, read, closes, rfl⟩, takeAfter_quiet quietThen,
    continuation_ok.2 (.inl ⟨?_, ?_, rfl⟩)⟩
  · rw [atEnd]
    exact not_lt_base _
  · rw [Expr.addBefore_nil, Expr.addAfter_nil]

end Parser

/-! ## Whole texts -/

theorem Stream.current_ofTokens (file : String) (token : Token) (tokens : List Token) :
    (Stream.ofTokens file (token :: tokens)).current = token.inFile file := by
  rw [Stream.ofTokens, List.map_cons]
  dsimp only
  split <;> rfl

/-- Behind the opening parenthesis stand the tokens of the text itself. -/
theorem Stream.capped_ofTokens (file : String) {tokens : List Token} {opening closing : Token}
    (quiet : ∀ token ∈ opening :: (tokens ++ [closing]), token.Quiet)
    (solid : ∀ token ∈ tokens, token.kind ≠ .endOfInput) (closes : closing.kind = .parenClose) :
    (Stream.ofTokens file tokens).Capped
      (Stream.ofTokens file (opening :: (tokens ++ [closing]))).advance.2 := by
  have supplied : ∀ all : List Token, (∀ last ∈ all.getLast?, last.kind ≠ .endOfInput) →
      ∃ position, (Stream.ofTokens file all).tokens =
        all.map (Token.inFile file) ++ [Token.endAt position] := by
    intro all missing
    rcases Stream.tokens_ofTokens file all with ⟨-, last, isLast, atEnd⟩ | ⟨position, same, -⟩
    · exact absurd atEnd (missing last isLast)
    · exact ⟨position, same⟩
  obtain ⟨position, known⟩ := supplied tokens fun last isLast =>
    solid last (List.mem_of_getLast? isLast)
  obtain ⟨position', known'⟩ := supplied (opening :: (tokens ++ [closing])) (by
    rw [← List.cons_append, List.getLast?_concat]
    rintro _ ⟨⟩
    rw [closes]
    decide)
  have rest : (Stream.ofTokens file (opening :: (tokens ++ [closing]))).upcoming =
      tokens.map (Token.inFile file) ++ [closing.inFile file, Token.endAt position'] := by
    simpa using (List.cons.inj known').2
  obtain ⟨quiet', behind⟩ := (Stream.quiet_ofTokens file quiet).advance_tokens (by simp [rest])
  refine ⟨Stream.quiet_ofTokens file fun token member =>
    quiet token (List.mem_cons_of_mem _ (List.mem_append_left _ member)), quiet',
    tokens.map (Token.inFile file), Token.endAt position, closing.inFile file,
    Token.endAt position', known, behind.trans rest, ?_, rfl, closes, rfl⟩
  intro token member
  obtain ⟨token, inside, rfl⟩ := List.mem_map.1 member
  exact solid token inside

/-- Around tokens without comments that are parsed, parentheses change nothing but
the depth. -/
theorem parseTokens_parenthesized {options : Options} {tokens : List Token}
    {opening closing : Token} {document : Document}
    (quiet : ∀ token ∈ opening :: (tokens ++ [closing]), token.Quiet)
    (solid : ∀ token ∈ tokens, token.kind ≠ .endOfInput)
    (opens : opening.kind = .parenOpen) (closes : closing.kind = .parenClose)
    (parsed : parseTokens options tokens = .ok document) :
    parseTokens { options with maxDepth := options.maxDepth + 1 }
      (opening :: (tokens ++ [closing])) = .ok document := by
  have capped := Stream.capped_ofTokens options.file quiet solid closes
  obtain ⟨last, run⟩ := parseTokens_ok.1 parsed
  obtain ⟨before, s₁, value, target, after, detached, read, atEnd, took, rfl⟩ :=
    Parser.document_ok.1 run
  rw [Parser.takeDetached_quiet capped.quiet] at detached
  cases detached
  obtain ⟨target', read', cappedThen⟩ :=
    Parser.expression_carries (options.maxDepth + 1) capped read
  rw [Parser.takeBefore_quiet cappedThen.quiet] at took
  cases took
  obtain ⟨quietThen, atEnd'⟩ := cappedThen.past_end atEnd
  have quietAll := Stream.quiet_ofTokens options.file quiet
  have grouped := Parser.expression_group quietAll
    (by rw [Stream.current_ofTokens]; exact opens) read' (cappedThen.at_end atEnd) quietThen atEnd'
  exact parseTokens_ok.2 ⟨_, Parser.document_ok.2 ⟨[], _, value, _, [],
    Parser.takeDetached_quiet quietAll, grouped, atEnd', Parser.takeBefore_quiet quietThen, rfl⟩⟩

/-- A call in parentheses needs one level more than the call. -/
theorem parseTokens_parenthesized_call :
    ∃ opening tokens closing last document fault,
      tokenize "a.nix" "(a b)" = .ok (opening :: (tokens ++ [closing, last])) ∧
      parseTokens { maxDepth := 3 } tokens = .ok document ∧
      parseTokens { maxDepth := 4 } (opening :: (tokens ++ [closing])) = .ok document ∧
      parseTokens { maxDepth := 3 } (opening :: (tokens ++ [closing])) = .error fault ∧
      fault.cause = .tooDeep 3 := by
  have run : ∃ opening function argument closing last document fault,
      tokenize "a.nix" "(a b)" = .ok [opening, function, argument, closing, last] ∧
      (∀ token ∈ [opening, function, argument, closing], token.Quiet) ∧
      (∀ token ∈ [function, argument], token.kind ≠ .endOfInput) ∧
      opening.kind = .parenOpen ∧ closing.kind = .parenClose ∧
      parseTokens { maxDepth := 3 } [function, argument] = .ok document ∧
      parseTokens { maxDepth := 3 } [opening, function, argument, closing] = .error fault ∧
      fault.cause = .tooDeep 3 :=
    ⟨_, _, _, _, _, _, _, by cbv, by simp [Token.Quiet], by simp, rfl, rfl, by cbv, by cbv, rfl⟩
  obtain ⟨opening, function, argument, closing, last, document, fault, split, quiet, solid, opens,
    closes, parsed, shallow, deep⟩ := run
  have grouped := parseTokens_parenthesized quiet solid opens closes parsed
  exact ⟨opening, [function, argument], closing, last, document, fault, split, parsed, grouped,
    shallow, deep⟩

end NixSyntax
