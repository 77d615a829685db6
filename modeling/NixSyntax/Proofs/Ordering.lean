/-
Module: NixSyntax.Proofs.Ordering
Purpose: Without clauses and `inherit`, a parse keeps the comments of its tokens in order.
Main exports: orderLedger, Piece.comments, Ledger.count_document, comments_in_order
-/
import Mathlib
import NixSyntax.Proofs.Conservation

namespace NixSyntax

/-!
The ledger of conservation left open how comments are counted.  In the free
monoid a count is the list itself, so a payment fixes the order too.  Sums do
not commute there, so the ledger must refuse every stream on which a clause or
an `inherit` could still be read.
-/

/-! ## Counting with order -/

/-- The ledger whose count of comments is the comments themselves. -/
def orderLedger : Ledger (FreeAddMonoid Comment) where
  count comments := FreeAddMonoid.ofList comments
  count_nil := FreeAddMonoid.ofList_nil
  count_append := FreeAddMonoid.ofList_append
  Admits stream :=
    EndsOnce stream.tokens ∧ ∀ token ∈ stream.tokens, token.kind ∉ Kind.reorders
  admits_advance := by
    rintro stream ⟨ends, plain⟩
    refine ⟨ends.advance, ?_⟩
    rw [Stream.tokens_advance]
    split
    · rw [List.forall_mem_singleton, Stream.advance_kind]
      exact plain _ List.mem_cons_self
    · exact fun token member => plain token (List.mem_cons_of_mem _ member)
  admits_trim := by
    rintro stream leading unclaimed ⟨ends, plain⟩
    exact ⟨ends.replace_head rfl id, List.forall_mem_cons.2 (List.forall_mem_cons.1 plain)⟩
  commutes := by
    rintro stream ⟨-, plain⟩ reorders
    exact absurd reorders (plain _ List.mem_cons_self)

/-! ## The order of the source text -/

/-- The comment that a piece is, if it is one. -/
def Piece.comments : Piece → List Comment
  | .trivium (.comment it) => [it]
  | _ => []

theorem Gap.comments_split (gap : Gap) :
    gap.splitLine.1.comments ++ gap.splitLine.2.comments = gap.comments := by
  rw [← Gap.comments_append, Gap.splitLine_append]

/-- Layout leaves the comments in the order of the pieces. -/
theorem Layout.comments_ofPieces (pieces : List Piece) :
    (ofPieces pieces).lead.comments ++ (ofPieces pieces).items.flatMap (·.2.comments) =
      pieces.flatMap Piece.comments := by
  induction pieces with
  | nil => rfl
  | cons piece pieces ih =>
      rw [List.flatMap_cons, ← ih]
      cases piece with
      | trivium it => cases it <;> rfl
      | lexeme it => rfl

/-- Sharing a gap between two tokens leaves its comments in order. -/
theorem Layout.comments_tokensFrom (file : String) (offset : Nat) (above : Gap)
    (items : List (Lexeme × Gap)) :
    (tokensFrom file offset above items).flatMap Token.comments =
      above.comments ++ items.flatMap (·.2.comments) := by
  induction items generalizing offset above with
  | nil => simp [tokensFrom, Token.comments, Token.endAt]
  | cons item items ih =>
      obtain ⟨lexeme, gap⟩ := item
      rw [tokensFrom, List.flatMap_cons, ih, List.flatMap_cons, ← gap.comments_split]
      simp [Token.comments]

/-- The comments of the tokens of a text are those of its pieces, in order. -/
theorem tokenize_comments {file source : String} {tokens : List Token}
    (done : tokenize file source = .ok tokens) :
    ∃ pieces, Cut source.toList pieces ∧
      tokens.flatMap Token.comments = pieces.flatMap Piece.comments := by
  obtain ⟨pieces, scanned, rfl⟩ := tokenize_scan.1 done
  refine ⟨pieces, scan_cut scanned, ?_⟩
  rw [Layout.tokens, Layout.comments_tokensFrom, Layout.comments_ofPieces]

/-! ## Whole documents -/

/-- A ledger for which the input ends once counts the comments of a document as
those of its tokens. -/
theorem Ledger.count_document {M : Type} [AddMonoid M] {ledger : Ledger M} {options : Options}
    {tokens : List Token} {document : Document}
    (ends : ∀ stream, ledger.Admits stream → EndsOnce stream.tokens)
    (admitted : ledger.Admits (Stream.ofTokens options.file tokens))
    (parsed : parseTokens options tokens = .ok document) :
    ledger.count document.comments = ledger.count (tokens.flatMap Token.comments) := by
  obtain ⟨target, run⟩ := parseTokens_ok.1 parsed
  obtain ⟨targetAdmitted, paid⟩ :=
    document_pays (Stream.unclaimed_ofTokens _ _) run admitted
  rw [held_ofTokens, held_of_document run (ends target targetAdmitted), ledger.count_nil,
    add_zero] at paid
  exact paid.symm

/-- Without clauses and `inherit` the comments of a document are those of its
tokens in their order, which for a source text is the order in which they
stand there. -/
theorem comments_in_order (options : Options) (tokens : List Token) (document : Document)
    (ends : EndsOnce tokens) (plain : ∀ token ∈ tokens, token.kind ∉ Kind.reorders)
    (parsed : parseTokens options tokens = .ok document) :
    document.comments = tokens.flatMap Token.comments ∧
      ∀ file source, tokenize file source = .ok tokens → ∃ pieces, Cut source.toList pieces ∧
        document.comments = pieces.flatMap Piece.comments := by
  have started : ∀ token ∈ (Stream.ofTokens options.file tokens).tokens,
      token.kind ∉ Kind.reorders := by
    rcases Stream.tokens_ofTokens options.file tokens with ⟨same, -⟩ | ⟨position, longer, -⟩
    · rw [same]
      simpa using plain
    · rw [longer]
      refine List.forall_mem_append.2 ⟨by simpa using plain, ?_⟩
      simp [Token.endAt, Kind.reorders]
  have same : document.comments = tokens.flatMap Token.comments :=
    FreeAddMonoid.ofList.injective
      (orderLedger.count_document (fun _ admitted => admitted.1) ⟨ends.ofTokens, started⟩ parsed)
  refine ⟨same, ?_⟩
  intro file source done
  obtain ⟨pieces, cut, order⟩ := tokenize_comments done
  exact ⟨pieces, cut, same.trans order⟩

/-- Comments around a default, behind its comma, inside a path and on both sides
of a closing parenthesis. -/
theorem comments_in_order_around_default :
    ∃ tokens document,
      tokenize "a.nix" "\x7b a ? /*1*/ b, # 2\n... \x7d: (c.$\x7bd /*3*/\x7d # 4\n# 5\n) # 6" =
        .ok tokens ∧
      EndsOnce tokens ∧ (∀ token ∈ tokens, token.kind ∉ Kind.reorders) ∧
      parseTokens { maxDepth := 4 } tokens = .ok document ∧
      document.comments = [⟨.block, "1"⟩, ⟨.line, " 2"⟩, ⟨.block, "3"⟩, ⟨.line, " 4"⟩,
        ⟨.line, " 5"⟩, ⟨.line, " 6"⟩] ∧
      document.comments = tokens.flatMap Token.comments := by
  have run : ∃ tokens,
      tokenize "a.nix" "\x7b a ? /*1*/ b, # 2\n... \x7d: (c.$\x7bd /*3*/\x7d # 4\n# 5\n) # 6" =
        .ok tokens ∧
      (∀ token ∈ tokens, token.kind ∉ Kind.reorders) ∧
      parseTokens { maxDepth := 4 } tokens = .ok
        { before := []
          value := .bare (.patternLambda
            [⟨"a", some ⟨[], .name [.name "b"], ⟨[⟨.block, "1"⟩], []⟩⟩, ⟨[], [⟨.line, " 2"⟩]⟩⟩]
            true none []
            ⟨[], .name [.name "c", .computed ⟨[], .name [.name "d"], ⟨[], [⟨.block, "3"⟩]⟩⟩],
              ⟨[], [⟨.line, " 4"⟩, ⟨.line, " 5"⟩, ⟨.line, " 6"⟩]⟩⟩)
          after := [] } := by
    refine ⟨_, by cbv, by decide, ?_⟩
    cbv
  obtain ⟨tokens, done, plain, parsed⟩ := run
  have ends := tokenize_endsOnce done
  exact ⟨tokens, _, done, ends, plain, parsed, rfl, (comments_in_order _ _ _ ends plain parsed).1⟩

end NixSyntax
