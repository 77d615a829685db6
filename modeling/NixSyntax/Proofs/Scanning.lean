/-
Module: NixSyntax.Proofs.Scanning
Purpose: The scanner one piece at a time, and the signs of the tokens that it makes.
Main exports: Piece.signs, scan_read, scan_ok, tokenize_ok
-/
import NixSyntax.Proofs.Cut
import NixSyntax.Proofs.Run
import NixSyntax.Token.Layout

namespace NixSyntax

/-! ## Signs of pieces -/

/-- What a parse reads of a lexeme. -/
def Lexeme.sign (lexeme : Lexeme) : Sign :=
  { kind := lexeme.kind, value := String.ofList lexeme.value }

/-- What a parse reads of pieces: the signs of the lexemes among them. -/
def Piece.signs : List Piece → List Sign
  | [] => []
  | .trivium _ :: rest => Piece.signs rest
  | .lexeme it :: rest => it.sign :: Piece.signs rest

/-- The sign of a symbol or a reserved word. -/
def Sign.mark (kind : Kind) : Sign :=
  { kind, value := kind.spelling }

/-- The sign of the end of the input. -/
def Sign.endOfInput : Sign :=
  { kind := .endOfInput, value := "EOF" }

@[simp] theorem Piece.signs_append (front back : List Piece) :
    Piece.signs (front ++ back) = Piece.signs front ++ Piece.signs back := by
  induction front with
  | nil => rfl
  | cons piece front ih => cases piece <;> simp [Piece.signs, ih]

theorem Layout.signs_ofPieces (pieces : List Piece) :
    (Layout.ofPieces pieces).items.map (fun item => item.1.sign) = Piece.signs pieces := by
  induction pieces with
  | nil => rfl
  | cons piece pieces ih =>
      cases piece with
      | trivium it => exact ih
      | lexeme it => exact congrArg (it.sign :: ·) ih

/-- Layout adds nothing to the signs of the lexemes but the end of the input. -/
theorem Layout.signs_tokensFrom (file : String) (offset : Nat) (above : Gap)
    (items : List (Lexeme × Gap)) :
    (Layout.tokensFrom file offset above items).map Token.sign =
      items.map (fun item => item.1.sign) ++ [Sign.endOfInput] := by
  induction items generalizing offset above with
  | nil => rfl
  | cons item items ih =>
      rw [Layout.tokensFrom, List.map_cons, ih]
      rfl

/-! ## One piece -/

/-- The scanner reads a piece off the front of a text and goes on behind it. -/
theorem scan_read {opened : List Enclosure} {offset : Nat} {piece : Piece} {behind : List Char}
    (present : piece.raw ≠ []) (read : readPiece opened (piece.raw ++ behind) = .ok piece) :
    scan opened offset (piece.raw ++ behind) =
      (scan (piece.opens opened offset) (offset + utf8Length piece.raw) behind).map
        (piece :: ·) := by
  cases raw : piece.raw with
  | nil => exact absurd raw present
  | cons c tail =>
      rw [raw, List.cons_append] at read
      rw [List.cons_append, scan.eq_def]
      simp only [read, raw, List.length_cons, Nat.add_sub_cancel, List.drop_left]

/-- A text that is scanned has ended, or starts with a piece behind which the
scan goes on. -/
theorem scan_ok {opened : List Enclosure} {offset : Nat} {text : List Char}
    {pieces : List Piece} (scanned : scan opened offset text = .ok pieces) :
    (text = [] ∧ pieces = [] ∧ checkClosed opened = .ok []) ∨
      ∃ piece behind others, text = piece.raw ++ behind ∧ piece.Complete behind ∧
        readPiece opened text = .ok piece ∧ pieces = piece :: others ∧
        scan (piece.opens opened offset) (offset + utf8Length piece.raw) behind = .ok others := by
  cases text with
  | nil =>
      rw [scan] at scanned
      have none_read : pieces = [] := by
        unfold checkClosed at scanned
        split at scanned
        · cases scanned
        · cases scanned
          rfl
      exact .inl ⟨rfl, none_read, none_read ▸ scanned⟩
  | cons c rest =>
      have started := scanned
      rw [scan] at scanned
      cases read : readPiece opened (c :: rest) with
      | error cause =>
          rw [read] at scanned
          cases scanned
      | ok piece =>
          obtain ⟨behind, shape, complete⟩ := readPiece_starts (List.cons_ne_nil c rest) read
          rw [shape, scan_read complete.raw_ne_nil (shape ▸ read)] at started
          cases further : scan (piece.opens opened offset) (offset + utf8Length piece.raw) behind with
          | error fault =>
              rw [further] at started
              cases started
          | ok others =>
              rw [further] at started
              cases started
              exact .inr ⟨piece, behind, others, shape, complete, rfl, rfl, further⟩

/-! ## All pieces -/

/-- The signs of the tokens of a text are those of its pieces, and the end of
the input behind them. -/
theorem tokenize_ok {file source : String} {tokens : List Token}
    (done : tokenize file source = .ok tokens) :
    ∃ pieces, scan [] 0 source.toList = .ok pieces ∧
      tokens.map Token.sign = Piece.signs pieces ++ [Sign.endOfInput] := by
  obtain ⟨pieces, scanned, rfl⟩ := tokenize_scan.1 done
  exact ⟨pieces, scanned, by rw [Layout.tokens, Layout.signs_tokensFrom, Layout.signs_ofPieces]⟩

end NixSyntax
