/-
Module: NixSyntax.Proofs.NonInterference
Purpose: Comments, source texts and places have no influence on what a parse decides.
Main exports: Stream.Twin, Comparison.alike, Parser.document_alike, Stream.SameIndex,
  parseTokens_noninterference
-/
import Mathlib
import NixSyntax.Proofs.ParallelRules

namespace NixSyntax

/-!
Two runs of one parser are compared on two streams whose tokens agree in their
signs.  The comments in their hands are the only difference, and the views of the
results do not show them.
-/

/-! ## Twins -/

/-- Two tokens with the same sign, at related places. -/
structure Token.Twin (related : Position → Position → Prop) (first second : Token) : Prop where
  sign : first.sign = second.sign
  place : related first.span.start second.span.start

/-- Two streams whose tokens are twins. -/
structure Stream.Twin (related : Position → Position → Prop) (first second : Stream) : Prop where
  current : first.current.Twin related second.current
  upcoming : List.Forall₂ (Token.Twin related) first.upcoming second.upcoming

variable {related : Position → Position → Prop}

namespace Stream.Twin

variable {first second : Stream} (twin : first.Twin related second)

include twin

theorem kind : first.current.kind = second.current.kind :=
  Token.kind_eq twin.current.sign

theorem signs : first.signs = second.signs := by
  have tokens : List.Forall₂ (Token.Twin related) first.tokens second.tokens :=
    .cons twin.current twin.upcoming
  rw [Stream.signs, Stream.signs, ← List.forall₂_eq_eq_eq, List.forall₂_map_left_iff,
    List.forall₂_map_right_iff]
  exact tokens.imp fun _ _ same => same.sign

/-- Comments may be taken off the current tokens of twins. -/
theorem trim (leading leading' : List Comment) (unclaimed unclaimed' : Unclaimed) :
    Stream.Twin related { first with current := { first.current with leading }, unclaimed }
      { second with
        current := { second.current with leading := leading' }, unclaimed := unclaimed' } :=
  ⟨⟨twin.current.sign, twin.current.place⟩, twin.upcoming⟩

theorem advance : first.advance.2.Twin related second.advance.2 := by
  have spent : first.advance.1.Twin related second.advance.1 := by
    rw [advance_fst, advance_fst]
    exact ⟨twin.current.sign, twin.current.place⟩
  have upcoming := twin.upcoming
  unfold Stream.advance at spent ⊢
  cases split : first.upcoming with
  | nil =>
      rw [split] at spent upcoming
      rw [List.forall₂_nil_left_iff] at upcoming
      rw [upcoming] at spent ⊢
      exact ⟨spent, .nil⟩
  | cons next rest =>
      rw [split] at upcoming
      obtain ⟨next', rest', same, others, split'⟩ := List.forall₂_cons_left_iff.1 upcoming
      rw [split']
      exact ⟨same, others⟩

end Stream.Twin

/-- Runs on twins end with results that are the same but for the comments, or with
faults of one outline at related places. -/
def Comparison.alike (related : Position → Position → Prop) : Comparison where
  view := .plain
  Near _ _ source source' := source.Twin related source' ∧ source.Ended
  Failed fault target fault' target' :=
    fault.cause.outline = fault'.cause.outline ∧ related fault.position fault'.position ∧
      target.Twin related target'
  Cut _ _ := False
  ended near := near.2
  length_le near := by
    have lengths := congrArg List.length near.1.signs
    rw [Stream.length_signs, Stream.length_signs] at lengths
    exact (Nat.succ.inj lengths).le
  recede near := near
  sign near _ := near.1.current.sign.symm
  kind_peek near distance := .inl (Stream.kind_peek_eq near.1.signs distance).symm
  uneven near differs := absurd near.1.kind.symm differs
  advance {_ _ _ source _} near solid _ :=
    ⟨near.1.advance, (Stream.takes_advance solid trivial : source.Takes ⊤ _).reads.ended near.2⟩
  claim := by
    rintro take claiming _ _ source source' ⟨twin, ended⟩
    obtain ⟨comments, leading, unclaimed, run⟩ := claiming.claims source
    obtain ⟨comments', leading', unclaimed', run'⟩ := claiming.claims source'
    exact ⟨comments, _, comments', _, run, run', rfl,
      twin.trim leading leading' unclaimed unclaimed', ended⟩
  refuse complaint near _ nearThen _ := by
    cases complaint with
    | unexpected expected =>
        have outline := congrArg (Cause.unexpected expected · "") near.1.kind
        exact ⟨outline, near.1.current.place, nearThen.1⟩
    | rejected reason => exact ⟨rfl, near.1.current.place, nearThen.1⟩
    | badNumber => exact ⟨rfl, near.1.current.place, nearThen.1⟩
    | chained => exact ⟨rfl, near.1.current.place, nearThen.1⟩
  stray {_ _ _ close _ _} near _ _ _ := by
    have outline := congrArg (Cause.unexpected [close, .fragment, .interpOpen] · "") near.1.kind
    exact ⟨outline, near.1.current.place, near.1⟩

theorem Comparison.alike_even {started : Bool} {held : List Kind} {source source' : Stream}
    (near : (alike related).Near started held source source') :
    source'.current.kind = source.current.kind :=
  near.1.kind.symm

namespace Parser

variable {started : Bool} {held : List Kind} (fallback : FallbackLevel) (limit : Nat)

theorem fail_alike {α : Type} {same : α → α → Prop} {pre post : Stage} {cause : Cause} :
    (Comparison.alike related).Parallel same pre post (fail cause) (fail cause) :=
  fun _ _ near => .error ⟨rfl, near.1.1.current.place, near.1.1⟩

theorem expression_alike (calm : Calm held) (levels : Nat) (power : Power) :
    (Comparison.alike related).Parallel (View.plain.Same Expr.plain) ⟨started, held, none⟩
      (.behind held) (expression (.standard fallback) limit levels power)
      (expression (.standard fallback) limit levels power) :=
  expression_parallel calm (fun _ => fail_alike) levels power

theorem document_alike :
    (Comparison.alike related).Parallel (View.plain.Same Document.plain) ⟨false, [], none⟩
      (.behind []) (Parser.document (.standard fallback) limit)
      (Parser.document (.standard fallback) limit) :=
  document_parallel Comparison.alike_even calm_nil
    (expression_alike fallback limit calm_nil limit .base)

end Parser

/-! ## Whole documents -/

/-- Two positions are the starts of the tokens at one index of two streams. -/
def Stream.SameIndex (first second : Stream) (position position' : Position) : Prop :=
  ∃ (index : Nat) (token token' : Token), first.tokens[index]? = some token ∧
    second.tokens[index]? = some token' ∧ position = token.span.start ∧
    position' = token'.span.start

/-- Streams with the same signs are twins, index by index. -/
theorem Stream.Twin.of_signs {first second : Stream} (same : first.signs = second.signs) :
    first.Twin (Stream.SameIndex first second) second := by
  have lengths : first.tokens.length = second.tokens.length := by
    simpa [Stream.signs] using congrArg List.length same
  have tokens : List.Forall₂ (Token.Twin (Stream.SameIndex first second)) first.tokens
      second.tokens := by
    rw [List.forall₂_iff_get]
    refine ⟨lengths, ?_⟩
    intro index bound bound'
    constructor
    · have sameSign := congrArg (·[index]?) same
      simpa [Stream.signs, bound, bound'] using sameSign
    · exact ⟨index, _, _, List.getElem?_eq_getElem bound, List.getElem?_eq_getElem bound', rfl, rfl⟩
  cases tokens with
  | cons current upcoming => exact ⟨current, upcoming⟩

/-- A parse decides by the signs of its tokens alone: with the same signs it
succeeds with the same tree up to comments, or fails for the same cause up to
source texts at the same token. -/
theorem parseTokens_noninterference (options : Options) (tokens tokens' : List Token)
    (same : tokens.map Token.sign = tokens'.map Token.sign) :
    (∃ document document', parseTokens options tokens = .ok document ∧
      parseTokens options tokens' = .ok document' ∧ document.plain = document'.plain) ∨
    ∃ fault fault', parseTokens options tokens = .error fault ∧
      parseTokens options tokens' = .error fault' ∧
      fault.cause.outline = fault'.cause.outline ∧
      Stream.SameIndex (.ofTokens options.file tokens) (.ofTokens options.file tokens')
        fault.position fault'.position := by
  have signs : (Stream.ofTokens options.file tokens).signs =
      (Stream.ofTokens options.file tokens').signs := by
    rw [Stream.signs_ofTokens, Stream.signs_ofTokens, same]
  have twins : (Comparison.alike (Stream.SameIndex (.ofTokens options.file tokens)
      (.ofTokens options.file tokens'))).At ⟨false, [], none⟩ (.ofTokens options.file tokens)
      (.ofTokens options.file tokens') :=
    ⟨⟨.of_signs signs, Stream.ofTokens_ended options.file tokens⟩, nofun⟩
  have ends := Parser.document_alike options.fallback options.maxDepth _ _ twins
  cases parsed : parseTokens options tokens with
  | ok document =>
      obtain ⟨target, run⟩ := parseTokens_ok.1 parsed
      obtain ⟨document', target', run', same, -⟩ := ends.of_ok run
      exact .inl ⟨document, document', rfl, parseTokens_ok.2 ⟨target', run'⟩, same⟩
  | error fault =>
      obtain ⟨target, run⟩ := parseTokens_error.1 parsed
      rcases ends.of_error run with ⟨fault', target', run', outline, place, -⟩ | ⟨⟨⟩⟩
      exact .inr ⟨fault, fault', rfl, parseTokens_error.2 ⟨target', run'⟩, outline, place⟩

/-- A chain of comparisons is refused at its second operator, wherever that
operator stands in the two texts. -/
theorem parseTokens_noninterference_chained :
    ∃ tokens tokens', tokenize "a.nix" "a < b < c" = .ok tokens ∧
      tokenize "b.nix" "# first\n\na<b # then\n<c" = .ok tokens' ∧
      tokens.map Token.sign = tokens'.map Token.sign ∧
      ∃ fault fault', parseTokens { maxDepth := 3 } tokens = .error fault ∧
        parseTokens { maxDepth := 3 } tokens' = .error fault' ∧
        fault.cause.outline = fault'.cause.outline ∧
        Stream.SameIndex (.ofTokens defaultFile tokens) (.ofTokens defaultFile tokens')
          fault.position fault'.position := by
  have run : ∃ tokens tokens', tokenize "a.nix" "a < b < c" = .ok tokens ∧
      tokenize "b.nix" "# first\n\na<b # then\n<c" = .ok tokens' ∧
      tokens.map Token.sign = tokens'.map Token.sign ∧
      parseTokens { maxDepth := 3 } tokens = .error ⟨.chained "<", ⟨6, "a.nix"⟩⟩ := by
    refine ⟨_, _, by cbv, by cbv, by cbv, ?_⟩
    cbv
  obtain ⟨tokens, tokens', done, done', same, failed⟩ := run
  rcases parseTokens_noninterference { maxDepth := 3 } tokens tokens' same with
    ⟨document, _, parsed, _⟩ | failure
  · rw [failed] at parsed
    cases parsed
  · exact ⟨tokens, tokens', done, done', same, failure⟩

end NixSyntax
