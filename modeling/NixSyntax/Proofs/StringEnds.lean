/-
Module: NixSyntax.Proofs.StringEnds
Purpose: A string of a scanned text is read to its own end, unless an interpolation in it fails.
Main exports: Parser.Begins, Parser.StringRead, Parser.stringLiteral_ends, strings_end
-/
import NixSyntax.Proofs.Guarded
import NixSyntax.Proofs.Halting

namespace NixSyntax

/-!
A repetition that fails does so in one round, behind rounds that have returned
something.  For the parts of a string that round starts at an interpolation,
since nothing else in a string is refused.
-/

namespace Parser

open NixSyntax.Stream

/-! ## Runs that fail -/

variable {α : Type} {source target : Stream} {fault : Fault}

/-- The step returns the items one after another, and may go on. -/
inductive Begins (step : Parser (Option α)) : Stream → List α → Stream → Prop where
  | nil {source : Stream} : Begins step source [] source
  | cons {source middle target : Stream} {item : α} {items : List α}
      (first : step source = .ok (some item) middle) (rest : Begins step middle items target) :
      Begins step source (item :: items) target

theorem manyWithin_error {step : Parser (Option α)} {bound : List Token}
    (failed : manyWithin step bound source = .error fault target) :
    ∃ items middle, Begins step source items middle ∧ step middle = .error fault target := by
  induction bound generalizing source with
  | nil => cases failed
  | cons token bound ih =>
      rw [manyWithin, bind_error] at failed
      rcases failed with first | ⟨_ | item, middle, stepped, rest⟩
      · exact ⟨[], source, .nil, first⟩
      · cases rest
      · rcases bind_error.1 rest with further | ⟨_, _, _, ⟨⟩⟩
        obtain ⟨items, last, begun, stuck⟩ := ih further
        exact ⟨item :: items, last, .cons stepped begun, stuck⟩

/-- A repetition fails where its step does. -/
theorem many_error {step : Parser (Option α)} (failed : many step source = .error fault target) :
    ∃ items middle, Begins step source items middle ∧ step middle = .error fault target :=
  manyWithin_error failed

/-- What every round keeps is kept by the rounds so far. -/
theorem Begins.good {watch : Watch} {held : List Kind} {step : Parser (Option α)} {items : List α}
    (begun : Begins step source items target)
    (sees : watch.Sees (.behind held) (.behind held) step step)
    (good : watch.Good true held source) : watch.Good true held target := by
  induction begun with
  | nil => exact good
  | cons first _ ih => exact ih (sees.of_ok good nofun first).2

theorem stringPart_error {expr : ExprParser} {close : Kind}
    (failed : stringPart expr close source = .error fault target) :
    (source.current.kind = .interpOpen ∧ interpolated expr source = .error fault target) ∨
      (source.current.kind ≠ .fragment ∧ source.current.kind ≠ .interpOpen ∧
        source.current.kind ≠ close) := by
  by_cases fragment : source.current.kind = .fragment
  · cases failed.symm.trans (stringPart_ok.2 (.inl ⟨fragment, rfl, rfl⟩))
  by_cases opens : source.current.kind = .interpOpen
  · left
    unfold stringPart at failed
    rw [Parser.currentKind_bind, opens] at failed
    rcases bind_error.1 failed with stuck | ⟨_, _, _, ⟨⟩⟩
    exact ⟨opens, stuck⟩
  · right
    refine ⟨fragment, opens, ?_⟩
    intro same
    cases failed.symm.trans (stringPart_ok.2 (.inr (.inr ⟨fragment, opens, same, rfl, rfl⟩)))

/-! ## Strings -/

/-- How the reading of a string ends: behind its own closing quotes, with all
closed that was opened in between, or in an interpolation of its own that
fails. -/
inductive StringRead (expr : ExprParser) (close : Kind) (source : Stream) : Prop where
  | whole {indented : Bool} {parts : List StringPart} {target : Stream} {inner : List Sign}
      {last : Sign} (run : stringLiteral expr source = .ok (indented, parts) target)
      (split : source.signs = source.current.sign :: (inner ++ last :: target.signs))
      (balanced : Sign.Balanced inner) (ends : last.kind = close)
  | inside {fault : Fault} {parts : List StringPart} {middle failed : Stream}
      {inner : List Sign} (run : stringLiteral expr source = .error fault failed)
      (begun : Begins (stringPart expr close) source.advance.2 parts middle)
      (split : source.signs = source.current.sign :: (inner ++ middle.signs))
      (balanced : Sign.Balanced inner) (opens : middle.current.kind = .interpOpen)
      (stuck : interpolated expr middle = .error fault failed)

/-- Where the signs ahead are nested, a string is read to its end if its
interpolations are. -/
theorem stringLiteral_ends {expr : ExprParser}
    (spells : ∀ power, Spells Expr.spellings (expr power))
    (guards : ∀ origin outer power {held}, Calm held → (Watch.guard origin outer).Sees
      (.behind held) (.behind held) (expr power) (expr power))
    {stack : List Kind} {previous : Option Kind} (ended : source.Ended)
    (nested : Nested stack previous source.signs) {close : Kind}
    (string : source.current.kind.opensString)
    (closes : source.current.kind.closer? = some close) : StringRead expr close source := by
  have solid : source.current.kind ≠ .endOfInput := by
    intro atEnd
    rw [atEnd] at string
    cases string
  have split := signs_advance (upcoming_ne_nil ended solid)
  have start : source.advance.2.Enclosed (source.current.kind :: stack) [] source.advance.2 := by
    rw [split] at nested
    have behind := nested.2
    have opened : source.current.sign.kind.track ([] ++ stack) = [source.current.kind] ++ stack :=
      Kind.track_of_settle (Kind.settle_opener closes []) stack
    rw [List.nil_append] at opened
    rw [opened] at behind
    exact .start ((takes_advance solid trivial : source.Takes ⊤ _).reads.ended ended) behind
  have parts : (Watch.guard source.advance.2 (source.current.kind :: stack)).Sees (.behind [])
      (.behind []) (stringPart expr close) (stringPart expr close) :=
    stringPart_guarded (guards _ _) string closes
  have whole : stringLiteral expr source = _ := stringLiteral_opened rfl string closes
  cases run : many (stringPart expr close) source.advance.2 with
  | ok found target =>
      have inside : source.advance.2.Enclosed (source.current.kind :: stack) [] target := by
        have all := parts.many ((roundsShrink_of_spells spells).stringPart close)
        exact (all.of_ok start nofun run).2
      have atClose := (stringParts_reads spells run).2 start.ended
      have closing := signs_advance <| upcoming_ne_nil inside.ended <|
        atClose.symm ▸ (Kind.closer?_ne closes).2.2
      obtain ⟨inner, shape, balanced⟩ := inside.passed
      have finished : stringLiteral expr source =
          .ok (source.current.kind == .indentOpen, found) target.advance.2 :=
        whole.trans (bind_ok.2 ⟨found, target, run, rfl⟩)
      exact .whole finished (by rw [split, shape, closing]) balanced atClose
  | error fault failed =>
      obtain ⟨items, middle, begun, stuck⟩ := many_error run
      have inside : source.advance.2.Enclosed (source.current.kind :: stack) [] middle :=
        begun.good parts start
      obtain ⟨inner, shape, balanced⟩ := inside.passed
      rw [bind_error.2 (.inl run)] at whole
      rcases stringPart_error stuck with ⟨opens, stuck⟩ | ⟨text, interpolation, other⟩
      · exact .inside whole begun (by rw [split, shape]) balanced opens stuck
      · rcases inside.in_string rfl string with fragment | opens | ends
        · exact absurd fragment text
        · exact absurd opens interpolation
        · exact absurd (Option.some.inj (ends.symm.trans closes)) other

end Parser

/-! ## Whole documents -/

/-- Text that is no token is not refused for what was expected instead. -/
theorem scan_error {opened : List Enclosure} {offset place : Nat} {text : List Char}
    {cause : Cause} (failed : scan opened offset text = .error (cause, place)) :
    cause.expected = [] := by
  obtain ⟨last, -, ⟨-, left⟩ | ⟨-, unread, -⟩⟩ := scan_stops failed
  · rw [(checkClosed_error left).1]
    rfl
  · cases unread <;> rfl

/-- No parse of a text fails for want of a part of a string.  Wherever the
parser comes to a string among the tokens of a text, it reads it to the closing
quotes that belong to it, or an interpolation in the string fails.  A quoted
segment of a path is read by the same rule. -/
theorem strings_end (options : Options) (source : String) :
    (∀ fault, parse options source = .error fault → .fragment ∉ fault.cause.expected) ∧
      ∀ tokens, tokenize options.file source = .ok tokens →
        ∀ stream : Stream, stream.signs <:+ tokens.map Token.sign →
          stream.current.kind.opensString → ∀ limit levels,
            ∃ close, stream.current.kind.closer? = some close ∧
              Parser.StringRead (Parser.expression (.standard options.fallback) limit levels)
                close stream := by
  constructor
  · intro fault failed
    unfold parse at failed
    cases done : tokenize options.file source with
    | error other =>
        rw [done] at failed
        cases failed
        unfold tokenize at done
        split at done
        · next cause offset scanned =>
            cases done
            rw [scan_error scanned]
            exact List.not_mem_nil
        · cases done
    | ok tokens =>
        rw [done] at failed
        have nested := nested_signs done
        have ends := ends_of_tokenize done
        obtain ⟨same, ended⟩ := Stream.ended_ofTokens options.file ends
        obtain ⟨target, stuck⟩ := parseTokens_error.1 failed
        have guarded : (Watch.guard (.ofTokens options.file tokens) []).Sees ⟨false, [], none⟩ _
            _ _ := Parser.document_guarded options.fallback options.maxDepth calm_nil
        rcases guarded.of_error (.start ended (same ▸ nested)) nofun stuck with
          ⟨-, foreign⟩ | ⟨⟨⟩⟩
        exact foreign
  · intro tokens done stream ahead string limit levels
    have nested := nested_signs done
    have ends := ends_of_tokenize done
    obtain ⟨same, ended⟩ := Stream.ended_ofTokens options.file ends
    obtain ⟨front, shape⟩ := ahead
    have present : stream.signs ≠ [] := by simp [Stream.signs, Stream.tokens]
    rw [Stream.Ended, same, ← shape, List.getLast?_append_of_ne_nil _ present] at ended
    obtain ⟨stack, previous, nested⟩ := Nested.behind (shape ▸ nested)
    obtain ⟨close, closes⟩ := Kind.closer?_of_opensString string
    exact ⟨close, closes, Parser.stringLiteral_ends (Parser.expression_spells _ _ _)
      (fun _ _ power _ calm => Parser.expression_guarded _ _ calm _ power) ended nested string
      closes⟩

/-- An operator without its right operand, behind a string inside a string. -/
theorem strings_end_at_operator :
    ∃ tokens fault,
      tokenize defaultFile "\"a$\x7b''b'' +\x7dc\"" = .ok tokens ∧
      parse { maxDepth := 4 } "\"a$\x7b''b'' +\x7dc\"" = .error fault ∧
      .fragment ∉ fault.cause.expected ∧
      (Stream.ofTokens defaultFile tokens).signs <:+ tokens.map Token.sign ∧
      (Stream.ofTokens defaultFile tokens).current.kind = .quoteOpen ∧
      Parser.StringRead (Parser.expression (.standard .lowest) 4 3) .quoteClose
        (Stream.ofTokens defaultFile tokens) := by
  obtain ⟨tokens, fault, done, failed, ahead, quote⟩ : ∃ tokens fault,
      tokenize defaultFile "\"a$\x7b''b'' +\x7dc\"" = .ok tokens ∧
      parse { maxDepth := 4 } "\"a$\x7b''b'' +\x7dc\"" = .error fault ∧
      (Stream.ofTokens defaultFile tokens).signs <:+ tokens.map Token.sign ∧
      (Stream.ofTokens defaultFile tokens).current.kind = .quoteOpen :=
    ⟨_, _, by cbv, by cbv, ⟨[], by cbv⟩, by decide⟩
  obtain ⟨foreign, ends⟩ := strings_end { maxDepth := 4 } "\"a$\x7b''b'' +\x7dc\""
  obtain ⟨close, closes, read⟩ := ends tokens done _ ahead (quote ▸ rfl) 4 3
  rw [quote] at closes
  cases closes
  exact ⟨tokens, fault, done, failed, foreign fault failed, ahead, quote, read⟩

end NixSyntax
