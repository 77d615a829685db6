/-
Module: NixSyntax.Proofs.Reread
Purpose: Parsing a text whose tokens are known and have no comments.
Main exports: Legible.tokenize, parse_legible
-/
import NixSyntax.Proofs.Inversion
import NixSyntax.Proofs.Legible
import NixSyntax.Proofs.Lossless
import NixSyntax.Proofs.Yield

namespace NixSyntax

/-! ## Tokens without comments -/

/-- A gap without comments has none to share out. -/
theorem Gap.splitLine_quiet {gap : Gap} (quiet : gap.comments = []) :
    gap.splitLine.1.comments = [] ∧ gap.splitLine.2.comments = [] := by
  rwa [← gap.splitLine_append, comments_append, List.append_eq_nil_iff] at quiet

theorem Layout.ofPieces_quiet {pieces : List Piece}
    (quiet : ∀ comment, Piece.trivium (.comment comment) ∉ pieces) :
    (Layout.ofPieces pieces).lead.comments = [] ∧
      ∀ item ∈ (Layout.ofPieces pieces).items, item.2.comments = [] := by
  induction pieces with
  | nil => exact ⟨rfl, nofun⟩
  | cons piece pieces ih =>
      have rest := ih fun comment member => quiet comment (List.mem_cons_of_mem piece member)
      cases piece with
      | trivium it =>
          cases it with
          | blank raw => exact rest
          | comment it => exact absurd List.mem_cons_self (quiet it)
      | lexeme it =>
          refine ⟨rfl, ?_⟩
          intro item member
          rcases List.mem_cons.1 member with rfl | later
          · exact rest.1
          · exact rest.2 item later

theorem Layout.tokensFrom_quiet (file : String) (offset : Nat) {above : Gap}
    {items : List (Lexeme × Gap)} (quiet : above.comments = [])
    (quietItems : ∀ item ∈ items, item.2.comments = []) :
    ∀ token ∈ Layout.tokensFrom file offset above items, token.Quiet := by
  induction items generalizing offset above with
  | nil =>
      intro token member
      rw [List.mem_singleton.1 member]
      exact ⟨quiet, rfl⟩
  | cons item items ih =>
      obtain ⟨lexeme, gap⟩ := item
      have shared := Gap.splitLine_quiet (quietItems _ List.mem_cons_self)
      intro token member
      rcases List.mem_cons.1 member with rfl | later
      · exact ⟨quiet, shared.1⟩
      · exact ih _ shared.2 (fun item inside => quietItems item (List.mem_cons_of_mem _ inside))
          token later

/-- A legible text is split into the tokens that it is legible as. -/
theorem Legible.tokenize {breaks : List Char → Prop} {text : String} {signs : List Sign}
    (legible : Legible breaks text signs) (ends : breaks []) (file : String) :
    ∃ tokens, tokenize file text = .ok tokens ∧
      tokens.map Token.sign = signs ++ [Sign.endOfInput] ∧ ∀ token ∈ tokens, token.Quiet := by
  obtain ⟨offset, pieces, rfl, quiet, run⟩ := legible [] 0 [] nofun ends
  have scanned : scan [] 0 text.toList = .ok pieces := by
    rw [List.append_nil] at run
    simpa [scan, checkClosed, Except.map] using run
  obtain ⟨quietLead, quietItems⟩ := Layout.ofPieces_quiet quiet
  refine ⟨(Layout.ofPieces pieces).tokens file, ?_, ?_, ?_⟩
  · rw [NixSyntax.tokenize, scanned]
  · rw [Layout.tokens, Layout.signs_tokensFrom, Layout.signs_ofPieces]
  · exact Layout.tokensFrom_quiet file _ quietLead quietItems

/-! ## Whole texts -/

/-- A stream of tokens without comments is quiet. -/
theorem Stream.quiet_ofTokens (file : String) {tokens : List Token}
    (quiet : ∀ token ∈ tokens, token.Quiet) : (Stream.ofTokens file tokens).Quiet := by
  have named : ∀ token ∈ tokens.map (Token.inFile file), token.Quiet := by
    intro token member
    obtain ⟨token, inside, rfl⟩ := List.mem_map.1 member
    exact quiet token inside
  refine ⟨?_, Stream.unclaimed_ofTokens file tokens⟩
  rcases Stream.tokens_ofTokens file tokens with ⟨same, -⟩ | ⟨position, same, -⟩
  · rw [same]
    exact named
  · rw [same]
    intro token member
    rcases List.mem_append.1 member with inside | last
    · exact named token inside
    · rw [List.mem_singleton.1 last]
      exact ⟨rfl, rfl⟩

/-- Signs that end with the end of the input are complete. -/
theorem Sign.completed_concat (signs : List Sign) :
    Sign.completed (signs ++ [.endOfInput]) = signs ++ [.endOfInput] := by
  rw [completed, List.getLast?_concat, if_pos ⟨_, rfl, rfl⟩]

/-- A document is the expression that its tokens yield. -/
theorem Parser.document_yields {grammar : Grammar} {limit : Nat} {signs : List Sign} {value : Expr}
    (yields : Yields (· = .endOfInput) (expression grammar limit limit .base) signs value) :
    Yields (· = .endOfInput) (document grammar limit) signs
      { before := [], value, after := [] } := by
  apply Yields.takeDetached
  rw [← List.append_nil signs]
  apply yields.bind _ fun _ follows => follows
  apply Yields.currentKind_lead
  rintro kind rfl
  rw [Sign.leadKind_nil, if_pos rfl]
  exact .takeBefore (.pure _)

/-- A text is parsed to the expression that its tokens yield. -/
theorem parse_legible {breaks : List Char → Prop} {options : Options} {text : String}
    {signs : List Sign} {value : Expr} (legible : Legible breaks text signs) (ends : breaks [])
    (yields : Parser.Yields (· = .endOfInput)
      (Parser.expression (.standard options.fallback) options.maxDepth options.maxDepth .base)
      signs value) :
    parse options text = .ok { before := [], value, after := [] } := by
  obtain ⟨tokens, split, known, quiet⟩ := legible.tokenize ends options.file
  have complete : (Stream.ofTokens options.file tokens).signs = signs ++ [.endOfInput] := by
    rw [Stream.signs_ofTokens, known, Sign.completed_concat]
  obtain ⟨target, run, -⟩ := Parser.document_yields yields _ _ _
    (Stream.quiet_ofTokens options.file quiet) complete rfl
  rw [parse, split]
  exact parseTokens_ok.2 ⟨target, run⟩

end NixSyntax
