/-
Module: NixSyntax.Proofs.Guarded
Purpose: What is open in front of an expression is open behind it, and no string is left early.
Main exports: Watch.guard, Watch.outside, Parser.stringPart_guarded, Parser.stringLiteral_opened,
  Parser.expression_guarded, Parser.document_guarded, Parser.document_outside
-/
import NixSyntax.Proofs.ParallelRules
import NixSyntax.Proofs.Remains

namespace NixSyntax

/-!
The rule for a part of a string has an alternative for tokens that are no part
of one.  The scanner knows at each quote whether a string starts there or ends,
and so does the parser as long as each expression that it has read has closed
what it opened.  So this is watched in all runs: what is open in front of an
expression is open behind it too.  A fault then never names text of a string among
what was expected, since only the rule for a part of a string would name it.  Nor does
it lie at text of a string, if no string is open at first: in a string nothing is
refused, and elsewhere there is no such text.
-/

/-- No other token than a part of a string or its closing quotes stands in a string. -/
theorem Stream.Enclosed.no_stray {origin source : Stream} {outer held : List Kind}
    {opener close : Kind} (enclosed : origin.Enclosed outer held source)
    (top : (held ++ outer).head? = some opener) (string : opener.opensString)
    (closes : opener.closer? = some close)
    (other : source.current.kind ∉ [close, .fragment, .interpOpen]) : False := by
  simp only [List.mem_cons, List.not_mem_nil, or_false, not_or] at other
  rcases enclosed.in_string top string with text | opens | ends
  · exact other.2.1 text
  · exact other.2.2 opens
  · exact other.1 (Option.some.inj (ends.symm.trans closes))

/-- Outside strings there is no text of them. -/
theorem Stream.Enclosed.no_text {origin source : Stream} {held : List Kind}
    (enclosed : origin.Enclosed [] held source) (calm : Calm held) :
    source.current.kind ≠ .fragment := by
  intro fragment
  obtain ⟨previous, nested⟩ := enclosed.nested
  obtain ⟨⟨opener, top, string⟩, -⟩ := nested.1.fragment fragment
  rw [List.append_nil] at top
  exact Bool.noConfusion ((calm opener top).symm.trans string)

/-- From `origin` on what is open is held, and text of a string is never missed. -/
def Watch.guard (origin : Stream) (outer : List Kind) : Watch where
  Good _ held stream := origin.Enclosed outer held stream
  Blame fault _ := .fragment ∉ fault.cause.expected
  Cut _ _ := False
  ended enclosed := enclosed.ended
  recede enclosed := enclosed
  advance enclosed solid settles := enclosed.advance solid settles
  claim enclosed leading unclaimed := enclosed.of_signs (Stream.signs_claim _ leading unclaimed)
  refuse _ _ _ _ noText := noText
  stray enclosed string closes other := (enclosed.no_stray rfl string closes other).elim

/-- A fault lies at a token from `origin` on, and outside the text of strings. -/
def Watch.outside (origin : Stream) : Watch where
  Good _ held stream := origin.Enclosed [] held stream ∧ stream.bare <:+ origin.bare
  Blame fault _ := ∃ token ∈ origin.bare, token.kind ≠ .fragment ∧ fault.position = token.span.start
  Cut _ _ := False
  ended good := good.1.ended
  recede good := good
  advance good solid settles :=
    ⟨good.1.advance solid settles, (Stream.behind_advance good.1.ended).suffix.trans good.2⟩
  claim good leading unclaimed :=
    ⟨good.1.of_signs (Stream.signs_claim _ leading unclaimed), good.2⟩
  refuse {_ _ _ _ stream _} complaint good calm _ _ := by
    refine ⟨stream.current.bare, good.2.subset List.mem_cons_self, good.1.no_text calm, ?_⟩
    cases complaint <;> rfl
  stray {_ _ _ close stream} good _ _ other := by
    refine ⟨stream.current.bare, good.2.subset List.mem_cons_self, ?_, rfl⟩
    intro fragment
    exact other (List.mem_cons_of_mem close (fragment ▸ List.mem_cons_self))

namespace Parser

open NixSyntax.Stream

variable {origin : Stream} {outer : List Kind} {started : Bool} {held : List Kind}

/-! ## Strings -/

section Rules

variable {expr : ExprParser}

/-- In a string the parts are all that there can be. -/
theorem stringPart_guarded {opener close : Kind}
    (nested : ∀ power {held}, Calm held → (Watch.guard origin (opener :: outer)).Sees
      (.behind held) (.behind held) (expr power) (expr power))
    (string : opener.opensString) (closes : opener.closer? = some close) :
    (Watch.guard origin (opener :: outer)).Sees (.behind []) (.behind []) (stringPart expr close)
      (stringPart expr close) := by
  have closing : close ∈ [Kind.quoteClose, .indentClose] := by
    cases opener <;> cases string <;> cases closes <;> decide
  apply stringPart_parallel nested closing
  rintro kind other _ source ⟨⟨rfl, enclosed⟩, here⟩
  obtain rfl := here kind rfl
  exact (enclosed.no_stray rfl string closes other).elim

/-- A string is read with the closer that belongs to its opener. -/
theorem stringLiteral_opened {source : Stream} {opener close : Kind}
    (opens : source.current.kind = opener) (string : opener.opensString)
    (closes : opener.closer? = some close) :
    stringLiteral expr source =
      (many (stringPart expr close) >>= fun parts => advance >>= fun _ =>
        pure (opener == .indentOpen, parts)) source.advance.2 := by
  have quotes : opener ∈ [Kind.quoteOpen, .indentOpen] := by
    cases opener <;> cases string <;> decide
  have read : expectOneOf [.quoteOpen, .indentOpen] source =
      .ok source.advance.1 source.advance.2 :=
    expectOneOf_ok.2 ⟨opens ▸ quotes, rfl, rfl⟩
  show EStateM.bind (expectOneOf _) _ source = _
  unfold EStateM.bind
  rw [read]
  dsimp only
  rw [advance_kind, opens]
  cases opener <;> cases string <;> cases closes <;> rfl

end Rules

/-! ## Whole expressions -/

variable (fallback : FallbackLevel) (limit : Nat) (calm : Calm held)

include calm

/-- An expression closes what it opens, and none of its strings is left for
another token than its own closing quotes. -/
theorem expression_guarded (levels : Nat) (power : Power) :
    (Watch.guard origin outer).Sees ⟨started, held, none⟩ (.behind held)
      (expression (.standard fallback) limit levels power)
      (expression (.standard fallback) limit levels power) :=
  expression_parallel calm (fun _ => Watch.fail_sees fun _ _ => List.not_mem_nil) levels power

theorem document_guarded :
    (Watch.guard origin outer).Sees ⟨started, held, none⟩ (.behind held)
      (Parser.document (.standard fallback) limit)
      (Parser.document (.standard fallback) limit) :=
  document_parallel Watch.even calm (expression_guarded fallback limit calm limit .base)

theorem document_outside :
    (Watch.outside origin).Sees ⟨started, held, none⟩ (.behind held)
      (Parser.document (.standard fallback) limit)
      (Parser.document (.standard fallback) limit) := by
  have gaveUp {pre post : Stage} (calm : Calm pre.held) : (Watch.outside origin).Sees pre post
      (fail (.tooDeep limit) : Parser Expr) (fail (.tooDeep limit)) :=
    Watch.fail_sees fun stream good =>
      ⟨stream.current.bare, good.2.subset List.mem_cons_self, good.1.no_text calm, rfl⟩
  exact document_parallel Watch.even calm (expression_parallel calm gaveUp limit .base)

end Parser

end NixSyntax
