/-
Module: NixSyntax.Proofs.Lexed
Purpose: The nodes of a parsed text are well-formed.
Main exports: tokenize_lexed, Parser.expression_wellFormed, parse_wellFormed,
  parse_nodes_wellFormed
-/
import Mathlib
import NixSyntax.Proofs.Uniform

namespace NixSyntax

/-! ## Tokens of a text -/

theorem isWord_take {text : List Char} (positive : 0 < wordWidth text) :
    isWord (String.ofList (text.take (wordWidth text))) := by
  cases text with
  | nil => cases positive
  | cons c rest =>
      rw [wordWidth] at positive ⊢
      split at positive
      · next start =>
          have taken : rest.take (rest.takeWhile isWordChar).length = rest.takeWhile isWordChar :=
            (List.prefix_iff_eq_take.1 (List.takeWhile_prefix _)).symm
          rw [if_pos start, Nat.add_comm, List.take_succ_cons, taken]
          simp [isWord, wordWidth, start, Nat.add_comm, List.takeWhile_takeWhile]
      · cases positive

theorem ofWord_or {word : String} (same : Kind.ofWord word = .kwOr) : word = "or" := by
  unfold Kind.ofWord Kind.ofReserved? at same
  cases found : Kind.reserved.find? fun kind => kind.spelling == word with
  | none =>
      rw [found] at same
      cases same
  | some kind =>
      rw [found] at same
      cases same
      have spelled := List.find?_some found
      exact (eq_of_beq spelled).symm

/-- The value of most kinds tells nothing. -/
theorem Sign.isLexed_of_other {sign : Sign}
    (other : sign.kind ∉ [Kind.int, .identifier, .kwOr, .path, .fragment]) : sign.IsLexed := by
  obtain ⟨kind, value⟩ := sign
  cases kind <;> first | trivial | exact absurd (by simp) other

/-- What is read in code has a value of its kind. -/
theorem readLexeme_lexed {opened : List Enclosure} {text : List Char} {lexeme : Lexeme}
    (read : readLexeme opened text = .ok lexeme) : lexeme.sign.IsLexed := by
  have taken := readLexeme_read opened text
  rw [read] at taken
  cases taken with
  | path positive => exact isPath_take positive
  | float => trivial
  | int positive =>
      intro c member
      have digits : c ∈ text.takeWhile Char.isDigit := by
        have taken : text.take (intWidth text) = text.takeWhile Char.isDigit :=
          (List.prefix_iff_eq_take.1 (List.takeWhile_prefix _)).symm
        rwa [Lexeme.sign, Lexeme.plain, String.toList_ofList, taken] at member
      exact List.mem_takeWhile_imp digits
  | word positive =>
      have word := isWord_take positive
      have kinds : ∀ kind ∈ Kind.identifier :: Kind.reserved,
          kind = .identifier ∨ kind = .kwOr ∨
            kind ∉ [Kind.int, .identifier, .kwOr, .path, .fragment] := by
        decide
      rcases kinds _ (List.mem_cons.2 (ofWord_kind _)) with name | isOr | other
      · rw [Lexeme.sign, Lexeme.plain, name]
        simp [Sign.IsLexed, isIdentifier, word, name]
      · rw [Lexeme.sign, Lexeme.plain, isOr]
        exact ofWord_or isOr
      · exact Sign.isLexed_of_other other
  | @symbol kind found =>
      have symbols : ∀ kind ∈ Kind.symbols,
          kind ∉ [Kind.int, .identifier, .kwOr, .path, .fragment] := by
        decide
      apply Sign.isLexed_of_other
      simp only [Lexeme.sign, Lexeme.plain, closingKind]
      split
      · decide
      · exact symbols kind (List.mem_of_find?_eq_some found)

/-- Text of a string is the only piece of it that can be anything. -/
theorem readPiece_lexed {opened : List Enclosure} {text : List Char} {lexeme : Lexeme}
    (read : readPiece opened text = .ok (.lexeme lexeme)) :
    lexeme.kind = .fragment ∨ lexeme.sign.IsLexed := by
  by_cases code : InCode opened
  · rw [readPiece_code code] at read
    exact .inr (readLexeme_lexed (readCode_lexeme read))
  · obtain ⟨opener, close, -, -, closes, string⟩ := readPiece_string code text
    rw [string] at read
    rcases stringPiece_ok read with ⟨value, width, -, -, ⟨⟩⟩ | ⟨kind, delimiter, ⟨⟩⟩
    · exact .inl rfl
    · right
      apply Sign.isLexed_of_other
      show kind ∉ _
      rcases delimiter with rfl | rfl
      · decide
      · cases opener <;> cases closes <;> decide

theorem scan_lexed {opened : List Enclosure} {offset : Nat} {text : List Char}
    {pieces : List Piece} (scanned : scan opened offset text = .ok pieces) :
    ∀ sign ∈ Piece.signs pieces, sign.kind = .fragment ∨ sign.IsLexed := by
  induction pieces generalizing opened offset text with
  | nil => nofun
  | cons piece pieces ih =>
      rcases scan_ok scanned with ⟨_, absurd, _⟩ |
        ⟨_, behind, _, shape, complete, read, ⟨⟩, further⟩
      · cases absurd
      cases piece with
      | trivium it => exact ih further
      | lexeme it => exact List.forall_mem_cons.2 ⟨readPiece_lexed read, ih further⟩

/-- Nested signs have no empty text of a string, nor two texts side by side. -/
theorem Nested.fragments {stack : List Kind} {previous : Option Kind} {signs : List Sign}
    (nested : Nested stack previous signs) :
    (∀ sign ∈ signs, sign.kind = .fragment → sign.value ≠ "") ∧
      signs.IsChain fun sign next => sign.kind = .fragment → next.kind ≠ .fragment := by
  induction signs generalizing stack previous with
  | nil => exact ⟨nofun, .nil⟩
  | cons sign signs ih =>
      obtain ⟨fits, rest⟩ := nested
      obtain ⟨present, apart⟩ := ih rest
      refine ⟨List.forall_mem_cons.2 ⟨fun kind => (fits.fragment kind).2.1, present⟩, ?_⟩
      refine List.isChain_cons.2 ⟨?_, apart⟩
      intro next isNext kind fragment
      cases signs with
      | nil => cases isNext
      | cons other signs =>
          cases isNext
          exact (rest.1.fragment fragment).2.2 (congrArg some kind)

/-- The tokens of a text are such as the scanner makes them. -/
theorem tokenize_lexed {file source : String} {tokens : List Token}
    (done : tokenize file source = .ok tokens) : Sign.Lexed (tokens.map Token.sign) := by
  obtain ⟨pieces, scanned, signs⟩ := tokenize_ok done
  have nested : Nested [] none (tokens.map Token.sign) := signs ▸ scan_nested scanned nofun
  obtain ⟨present, apart⟩ := nested.fragments
  refine ⟨?_, apart, ?_⟩
  · intro sign member
    have either : sign.kind = .fragment ∨ sign.IsLexed := by
      rw [signs] at member
      rcases List.mem_append.1 member with inside | last
      · exact scan_lexed scanned sign inside
      · rw [List.mem_singleton.1 last]
        exact .inr trivial
    rcases either with fragment | lexed
    · have some_text := present sign member fragment
      rwa [Sign.IsLexed, fragment]
    · exact lexed
  · rw [signs, List.getLast?_concat]
    exact ⟨_, rfl, rfl⟩

/-! ## Nodes of a parse -/

namespace Expr.Every

variable {value : Expr}

theorem addAfter (comments : List Comment) (every : value.Every WellFormed) :
    (value.addAfter comments).Every WellFormed :=
  .node every.here every.parts

theorem addBefore (comments : List Comment) (every : value.Every WellFormed) :
    (value.addBefore comments).Every WellFormed :=
  .node every.here every.parts

theorem addClause {clause : Clause} (every : value.Every WellFormed)
    (everySubject : clause.subject.Every WellFormed) : (value.addClause clause).Every WellFormed :=
  .node every.here (List.forall_mem_cons.2 ⟨everySubject, every.parts⟩)

end Expr.Every

namespace Parser

open NixSyntax.Stream

/-- Every node of an expression that is read from the tokens of a text is
well-formed. -/
theorem expression_wellFormed (fallback : FallbackLevel) (limit levels : Nat) :
    (∀ power, Makes True (Expr.Every Expr.WellFormed)
      (expression (.standard fallback) limit levels power)) ∧
    ∀ power left, left.Every Expr.WellFormed → Makes True (Expr.Every Expr.WellFormed)
      (continuation (.standard fallback) limit levels power left) := by
  induction levels with
  | zero =>
      refine ⟨fun _ _ _ _ _ run => absurd run expression_zero_ok, ?_⟩
      intro power left every source value target lexed run
      rcases continuation_ok.1 run with ⟨-, rfl, rfl⟩ | ⟨_, _, _, _, _, _, _, ⟨⟩, _⟩
      exact ⟨every, lexed⟩
  | succ levels ih =>
      obtain ⟨nested, goesOn⟩ := ih
      refine ⟨?_, ?_⟩
      · intro power source value target lexed run
        obtain ⟨before, s₁, rule, first, s₂, after, s₃, took, start, parsed, claimed, continued⟩ :=
          expression_succ_ok.1 run
        obtain ⟨-, lexed₁⟩ := takeBefore_makes _ _ _ lexed took
        obtain ⟨started, lexed₂⟩ := startRule_makes nested
          (fun _ comments every => every.addAfter comments) lexed₁ start parsed
        obtain ⟨-, lexed₃⟩ := takeAfter_makes _ _ _ lexed₂ claimed
        have every : first.Every Expr.WellFormed := by
          cases started with
          | fresh made =>
              obtain ⟨form, rfl, -, made⟩ := made
              exact .node (made.shaped trivial) made.parts
          | group every => exact every
          | clause clause every everySubject => exact every.addClause everySubject
        exact goesOn power _ ((every.addBefore before).addAfter after) _ _ _ lexed₃
          continued
      · intro power left every source value target lexed run
        rcases continuation_ok.1 run with
          ⟨-, rfl, rfl⟩ |
          ⟨fewer, operatorPower, rule, node, s₁, after, s₂, same, joins, -, parsed, claimed,
            continued⟩
        · exact ⟨every, lexed⟩
        · obtain rfl : levels = fewer := Nat.succ.inj same
          obtain ⟨⟨form, others, rfl, shape, made⟩, lexed₁⟩ :=
            joinRule_makes nested lexed joins parsed
          obtain ⟨-, lexed₂⟩ := takeAfter_makes _ _ _ lexed₁ claimed
          have everyNode : (Expr.bare form).Every Expr.WellFormed := by
            refine .node (made.shaped trivial) ?_
            show ∀ part ∈ form.inside, _
            rw [shape]
            exact List.forall_mem_cons.2 ⟨every, made.parts⟩
          exact goesOn power _ (everyNode.addAfter after) _ _ _ lexed₂ continued

end Parser

/-- Every node of a parsed text is well-formed. -/
theorem parse_wellFormed {options : Options} {source : String} {document : Document}
    (parsed : parse options source = .ok document) :
    document.value.Every Expr.WellFormed := by
  obtain ⟨tokens, split, parsed⟩ := parse_ok.1 parsed
  obtain ⟨target, run⟩ := parseTokens_ok.1 parsed
  obtain ⟨before, s₁, value, s₂, after, detached, read, -, -, rfl⟩ := Parser.document_ok.1 run
  have lexed := tokenize_lexed split
  have same : s₁.signs = tokens.map Token.sign := by
    obtain ⟨-, rfl⟩ := Parser.takeDetached_ok.1 detached
    show (Stream.ofTokens options.file tokens).signs = _
    rw [Stream.signs_ofTokens, Sign.completed, if_pos lexed.ends]
  exact ((Parser.expression_wellFormed _ _ _).1 _ _ _ _ (fun _ => same ▸ lexed) read).1

/-- A quoted segment is read with the rule for strings, at plain quotes, so its
string is not an indented one. -/
theorem Parser.segment_plain_quotes {expr : ExprParser} {source target : Stream}
    {parts : List StringPart} (run : Parser.segment expr source = .ok (.quoted parts) target) :
    Parser.stringLiteral expr source = .ok (false, parts) target := by
  rcases Parser.segment_ok.1 run with ⟨-, -, ⟨⟩⟩ | ⟨_, -, ⟨⟩⟩ | ⟨quote, indented, _, read, ⟨⟩⟩
  obtain ⟨-, _, -, -, rfl⟩ := Parser.stringLiteral_ok.1 read
  rwa [quote] at read

/-- Every node of a parsed text is well-formed, and so is every node of its image
among the trees with paths for names: there each inherited name is one part, each
parameter is one name, and an attribute test looks for an identifier without
clauses and comments.  No other tree has this image, and no quoted segment is read
from an indented string. -/
theorem parse_nodes_wellFormed {options : Options} {source : String} {document : Document}
    (parsed : parse options source = .ok document) :
    document.value.Every Expr.WellFormed ∧
      document.value.uniform.Sound false ∧
      (∀ other : Expr, other.uniform = document.value.uniform → other = document.value) ∧
      ∀ expr stream parts target,
        Parser.segment expr stream = .ok (.quoted parts) target →
          Parser.stringLiteral expr stream = .ok (false, parts) target :=
  ⟨parse_wellFormed parsed, (parse_wellFormed parsed).uniform,
    fun other same => Expr.uniform_injective other document.value same,
    fun _ _ _ _ run => Parser.segment_plain_quotes run⟩

/-- The largest integer, an application, an `inherit` of two names, one of them
quoted, and a test for a path that starts with a quoted segment. -/
theorem parse_nodes_wellFormed_set :
    ∃ document,
      parse { maxDepth := 6 }
          "\x7b inherit (f 9223372036854775807) a \"b$\x7bc\x7dd\"; e = g ? \"h\".i; \x7d" =
        .ok document ∧
      document.value = .bare (.attrs false
        [.inherit
            (some (.bare (.apply (.bare (.name [.name "f"])) [.bare (.int 9223372036854775807)])))
            [.name "a", .quoted [.literal "b", .interpolated (.bare (.name [.name "c"])),
              .literal "d"]] [],
          .assign [.name "e"]
            (.bare (.hasAttr (.bare (.name [.name "g"])) [.quoted [.literal "h"], .name "i"])) []]
        []) ∧
      document.value.Every Expr.WellFormed ∧
      document.value.uniform.Sound false := by
  have parsed : parse { maxDepth := 6 }
      "\x7b inherit (f 9223372036854775807) a \"b$\x7bc\x7dd\"; e = g ? \"h\".i; \x7d" = .ok
      { before := []
        value := .bare (.attrs false
          [.inherit
              (some (.bare (.apply (.bare (.name [.name "f"])) [.bare (.int 9223372036854775807)])))
              [.name "a", .quoted [.literal "b", .interpolated (.bare (.name [.name "c"])),
                .literal "d"]] [],
            .assign [.name "e"]
              (.bare (.hasAttr (.bare (.name [.name "g"])) [.quoted [.literal "h"], .name "i"])) []]
          [])
        after := [] } := by
    cbv
  exact ⟨_, parsed, rfl, (parse_nodes_wellFormed parsed).1, (parse_nodes_wellFormed parsed).2.1⟩

end NixSyntax
