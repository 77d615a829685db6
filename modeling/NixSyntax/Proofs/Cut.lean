/-
Module: NixSyntax.Proofs.Cut
Purpose: The pieces of a source text are all of it, and none could have been longer.
Main exports: Trivium.Complete, Piece.Complete, Cut, LexemeRead, CodeRead, readPiece_starts,
  scan_cut, tokenize_scan
-/
import Mathlib.Data.List.TakeWhile
import NixSyntax.Token.Layout

namespace NixSyntax

/-! ## Complete pieces -/

/-- Nothing behind a trivium belongs to it, and nothing in it belongs to another
one: blanks end at the first character that is none, a line comment at the end
of its line, and a block comment at the first `*/`. -/
def Trivium.Complete (rest : List Char) : Trivium → Prop
  | .blank raw => raw ≠ [] ∧ (∀ c ∈ raw, isBlank c) ∧ ∀ c ∈ rest.head?, ¬ isBlank c
  | .comment { style := .line, text } =>
      (∀ c ∈ text.toList, c ≠ '\r' ∧ c ≠ '\n') ∧ ∀ c ∈ rest.head?, c = '\r' ∨ c = '\n'
  | .comment { style := .block, text } => ¬ ['*', '/'] <:+: text.toList

/-- A lexeme has a text, and the end of the input is no lexeme. -/
def Piece.Complete (rest : List Char) : Piece → Prop
  | .trivium it => it.Complete rest
  | .lexeme it => it.raw ≠ [] ∧ it.kind ≠ .endOfInput

/-- A piece stands at the front of a text and is complete there. -/
def Piece.Starts (piece : Piece) (text : List Char) : Prop :=
  ∃ rest, text = piece.raw ++ rest ∧ piece.Complete rest

/-- The pieces, one after another, are the text, and each of them is complete
where it stands. -/
inductive Cut : List Char → List Piece → Prop where
  | nil : Cut [] []
  | cons {piece : Piece} {pieces : List Piece} {rest : List Char}
      (complete : piece.Complete rest) (others : Cut rest pieces) :
      Cut (piece.raw ++ rest) (piece :: pieces)

/-- A complete piece is never empty. -/
theorem Piece.Complete.raw_ne_nil {piece : Piece} {rest : List Char}
    (complete : piece.Complete rest) : piece.raw ≠ [] := by
  cases piece with
  | lexeme it => exact complete.1
  | trivium it =>
      cases it with
      | blank raw => exact complete.1
      | comment it => cases style : it.style <;> simp [raw, Trivium.raw, Comment.source, style]

/-- The scanner goes on exactly behind a complete piece. -/
theorem Piece.Complete.drop_eq {piece : Piece} {rest behind : List Char} {c : Char}
    (complete : piece.Complete behind) (shape : c :: rest = piece.raw ++ behind) :
    rest.drop (piece.raw.length - 1) = behind := by
  cases raw : piece.raw with
  | nil => exact absurd raw complete.raw_ne_nil
  | cons d tail =>
      rw [raw] at shape
      cases shape
      simp

/-! ## Blanks and comments -/

theorem blank_starts {text : List Char} (some : text.takeWhile isBlank ≠ []) :
    (Piece.trivium (.blank (text.takeWhile isBlank))).Starts text := by
  refine ⟨text.dropWhile isBlank, List.takeWhile_append_dropWhile.symm, some, ?_, ?_⟩
  · intro c member
    exact List.mem_takeWhile_imp member
  · intro c head
    have stops := List.head?_dropWhile_not isBlank text
    rw [Option.mem_def] at head
    simpa [head] using stops

theorem lineComment_starts (rest : List Char) :
    (Piece.trivium
      (.comment { style := .line, text := String.ofList (lineCommentBody rest) })).Starts
        ('#' :: rest) := by
  refine ⟨rest.dropWhile fun c => c != '\r' && c != '\n', ?_, ?_, ?_⟩
  · simp [Piece.raw, Trivium.raw, Comment.source, lineCommentBody]
  · intro c member
    rw [String.toList_ofList, lineCommentBody] at member
    simpa using List.mem_takeWhile_imp member
  · intro c head
    have stops := List.head?_dropWhile_not (fun c => c != '\r' && c != '\n') rest
    rw [Option.mem_def] at head
    rw [head] at stops
    by_cases carriage : c = '\r'
    · exact .inl carriage
    · exact .inr (by simpa [carriage] using stops)

/-- The body of a block comment runs up to the first closing delimiter. -/
theorem blockCommentBody?_some {text body : List Char}
    (found : blockCommentBody? text = some body) :
    (∃ rest, text = body ++ '*' :: '/' :: rest) ∧ ¬ ['*', '/'] <:+: body := by
  induction text generalizing body with
  | nil => cases found
  | cons c text ih =>
      rw [blockCommentBody?.eq_def] at found
      split at found
      · cases found
      · next rest shape =>
          cases found
          rw [shape]
          exact ⟨⟨rest, rfl⟩, by simp⟩
      · next d rest open_ shape =>
          cases shape
          obtain ⟨body, inner, rfl⟩ := Option.map_eq_some_iff.1 found
          obtain ⟨⟨rest, rfl⟩, clear⟩ := ih inner
          refine ⟨⟨rest, rfl⟩, ?_⟩
          -- A delimiter in the longer body starts at its first character, where
          -- the search would have stopped.
          rw [List.infix_cons_iff]
          rintro (front | inside)
          · obtain ⟨tail, split⟩ := front
            cases split
            exact open_ _ rfl rfl
          · exact clear inside

theorem blockComment_starts {rest body : List Char} (found : blockCommentBody? rest = some body) :
    (Piece.trivium (.comment { style := .block, text := String.ofList body })).Starts
      ('/' :: '*' :: rest) := by
  obtain ⟨⟨rest, rfl⟩, clear⟩ := blockCommentBody?_some found
  refine ⟨rest, ?_, ?_⟩
  · simp [Piece.raw, Trivium.raw, Comment.source]
  · simpa [Piece.Complete, Trivium.Complete] using clear

/-! ## Pieces of code

The scanner tries the classes of token in turn.  These are all the ways in which
that can end, failures included.
-/

/-- How a lexeme is read in code: by the first class that has one here. -/
inductive LexemeRead (opened : List Enclosure) (text : List Char) : Except Cause Lexeme → Prop where
  | path (positive : 0 < pathWidth text) :
      LexemeRead opened text (.ok (.plain .path (text.take (pathWidth text))))
  | float (positive : 0 < floatWidth text) :
      LexemeRead opened text (.ok (.plain .float (text.take (floatWidth text))))
  | int (positive : 0 < intWidth text) :
      LexemeRead opened text (.ok (.plain .int (text.take (intWidth text))))
  | word (positive : 0 < wordWidth text) :
      LexemeRead opened text
        (.ok (.plain (.ofWord (String.ofList (text.take (wordWidth text))))
          (text.take (wordWidth text))))
  | symbol {kind : Kind} (found : Kind.symbolAt text = some kind) :
      LexemeRead opened text (.ok (.plain (closingKind opened kind) kind.spelling.toList))
  | nothing (path : pathWidth text = 0) (int : intWidth text = 0) (word : wordWidth text = 0)
      (symbol : Kind.symbolAt text = none) :
      LexemeRead opened text (.error (.unrecognised (String.ofList (text.take 1))))

theorem readLexeme_read (opened : List Enclosure) (text : List Char) :
    LexemeRead opened text (readLexeme opened text) := by
  unfold readLexeme
  split
  · next path => exact .path path
  next path =>
  split
  · next float => exact .float float
  split
  · next int => exact .int int
  next int =>
  split
  · next word => exact .word word
  next word =>
  split
  · next kind found => exact .symbol found
  · next symbol =>
      exact .nothing (Nat.eq_zero_of_not_pos path) (Nat.eq_zero_of_not_pos int)
        (Nat.eq_zero_of_not_pos word) symbol

/-- How a piece of code is read: blanks, a comment or a lexeme. -/
inductive CodeRead (opened : List Enclosure) (text : List Char) : Except Cause Piece → Prop where
  | blank (some : text.takeWhile isBlank ≠ []) :
      CodeRead opened text (.ok (.trivium (.blank (text.takeWhile isBlank))))
  | line {rest : List Char} (shape : text = '#' :: rest) :
      CodeRead opened text
        (.ok (.trivium (.comment { style := .line, text := String.ofList (lineCommentBody rest) })))
  | block {rest body : List Char} (shape : text = '/' :: '*' :: rest)
      (found : blockCommentBody? rest = some body) :
      CodeRead opened text
        (.ok (.trivium (.comment { style := .block, text := String.ofList body })))
  | endless {rest : List Char} (shape : text = '/' :: '*' :: rest)
      (missing : blockCommentBody? rest = none) : CodeRead opened text (.error .openComment)
  | lexeme {lexeme : Lexeme} (read : readLexeme opened text = .ok lexeme) :
      CodeRead opened text (.ok (.lexeme lexeme))
  | nothing {cause : Cause} (solid : text.takeWhile isBlank = [])
      (noComment : ∀ rest, text ≠ '#' :: rest) (failed : readLexeme opened text = .error cause) :
      CodeRead opened text (.error cause)

theorem readCode_read (opened : List Enclosure) (text : List Char) :
    CodeRead opened text (readCode opened text) := by
  unfold readCode
  split
  · next solid =>
      unfold readSolid
      split
      · exact .line rfl
      · split
        · next found => exact .block rfl found
        · next missing => exact .endless rfl missing
      · next noComment _ =>
          cases read : readLexeme opened text with
          | ok lexeme => exact .lexeme read
          | error cause => exact .nothing solid noComment read
  · next some => exact .blank some

/-! ## Lexemes -/

/-- Any part of a text in front of it is a lexeme of some kind. -/
theorem take_starts {text : List Char} {width : Nat} {kind : Kind} {value : List Char}
    (present : text ≠ []) (positive : 0 < width) (solid : kind ≠ .endOfInput) :
    (Piece.lexeme { kind, value, raw := text.take width }).Starts text := by
  refine ⟨text.drop width, (List.take_append_drop width text).symm, ?_, solid⟩
  rw [Ne, List.take_eq_nil_iff]
  rintro (zero | empty)
  · omega
  · exact present empty

theorem ofWord_ne_endOfInput (word : String) : Kind.ofWord word ≠ .endOfInput := by
  have none_ends : ∀ kind ∈ Kind.reserved, kind ≠ .endOfInput := by decide
  unfold Kind.ofWord Kind.ofReserved?
  cases found : Kind.reserved.find? fun kind => kind.spelling == word with
  | none => simp
  | some kind => exact none_ends kind (List.mem_of_find?_eq_some found)

theorem closingKind_ne_endOfInput {opened : List Enclosure} {kind : Kind}
    (solid : kind ≠ .endOfInput) : closingKind opened kind ≠ .endOfInput := by
  unfold closingKind
  split
  · decide
  · exact solid

theorem symbolAt_some {text : List Char} {kind : Kind} (found : Kind.symbolAt text = some kind) :
    kind ≠ .endOfInput ∧ kind.spelling.toList ≠ [] ∧ kind.spelling.toList <+: text := by
  have spelled : ∀ kind ∈ Kind.symbols, kind ≠ .endOfInput ∧ kind.spelling.toList ≠ [] := by
    decide
  have here : kind.spelling.toList.isPrefixOf text = true :=
    List.find?_some (p := fun kind : Kind => kind.spelling.toList.isPrefixOf text) found
  obtain ⟨solid, present⟩ := spelled kind (List.mem_of_find?_eq_some found)
  exact ⟨solid, present, List.isPrefixOf_iff_prefix.1 here⟩

theorem readLexeme_starts {opened : List Enclosure} {text : List Char} {lexeme : Lexeme}
    (present : text ≠ []) (read : readLexeme opened text = .ok lexeme) :
    (Piece.lexeme lexeme).Starts text := by
  have taken := readLexeme_read opened text
  rw [read] at taken
  cases taken with
  | path positive => exact take_starts present positive (by decide)
  | float positive => exact take_starts present positive (by decide)
  | int positive => exact take_starts present positive (by decide)
  | word positive => exact take_starts present positive (ofWord_ne_endOfInput _)
  | symbol found =>
      obtain ⟨solid, present, rest, shape⟩ := symbolAt_some found
      exact ⟨rest, shape.symm, present, closingKind_ne_endOfInput solid⟩

theorem readCode_starts {opened : List Enclosure} {text : List Char} {piece : Piece}
    (present : text ≠ []) (read : readCode opened text = .ok piece) : piece.Starts text := by
  have taken := readCode_read opened text
  rw [read] at taken
  cases taken with
  | blank some => exact blank_starts some
  | line shape => exact shape ▸ lineComment_starts _
  | block shape found => exact shape ▸ blockComment_starts found
  | lexeme lexed => exact readLexeme_starts present lexed

/-! ## Text of a string

Literal text is empty only in front of a delimiter, which is then the piece.
-/

theorem quotedText_zero {text value : List Char} (empty : quotedText text = some (value, 0)) :
    (∃ rest, text = '"' :: rest) ∨ ∃ rest, text = '$' :: '{' :: rest := by
  unfold quotedText at empty
  split at empty <;> simp_all [consText]

theorem indentedText_zero {text value : List Char} (empty : indentedText text = some (value, 0)) :
    (∃ rest, text = '\'' :: '\'' :: rest) ∨ ∃ rest, text = '$' :: '{' :: rest := by
  unfold indentedText at empty
  split at empty <;> simp_all [consText]

theorem stringPiece_starts {literal : Option (List Char × Nat)} {close : Kind} {text : List Char}
    {piece : Piece} (solid : close ≠ .endOfInput) (spelled : close.spelling.toList ≠ [])
    (delimited : ∀ value, literal = some (value, 0) →
      (text.head? ≠ some '$' ∧ close.spelling.toList <+: text) ∨
        Kind.interpOpen.spelling.toList <+: text)
    (present : text ≠ []) (read : stringPiece literal close text = .ok piece) :
    piece.Starts text := by
  unfold stringPiece at read
  split at read
  · cases read
  · next value width =>
      split at read
      · next positive =>
          cases read
          exact take_starts present positive (by decide)
      · next zero =>
          obtain rfl : width = 0 := by omega
          cases read
          rcases delimited value rfl with ⟨head, rest, shape⟩ | ⟨rest, shape⟩
          · rw [if_neg head]
            exact ⟨rest, shape.symm, spelled, solid⟩
          · have head : text.head? = some '$' := by
              rw [← shape]
              rfl
            rw [if_pos head]
            exact ⟨rest, shape.symm, by decide, by decide⟩

/-- A piece that is read stands at the front of the text, complete. -/
theorem readPiece_starts {opened : List Enclosure} {text : List Char} {piece : Piece}
    (present : text ≠ []) (read : readPiece opened text = .ok piece) : piece.Starts text := by
  unfold readPiece at read
  split at read
  · refine stringPiece_starts (by decide) (by decide) ?_ present read
    intro value empty
    rcases quotedText_zero empty with ⟨rest, rfl⟩ | ⟨rest, rfl⟩
    · exact .inl ⟨by simp, rest, rfl⟩
    · exact .inr ⟨rest, rfl⟩
  · refine stringPiece_starts (by decide) (by decide) ?_ present read
    intro value empty
    rcases indentedText_zero empty with ⟨rest, rfl⟩ | ⟨rest, rfl⟩
    · exact .inl ⟨by simp, rest, rfl⟩
    · exact .inr ⟨rest, rfl⟩
  · exact readCode_starts present read

/-! ## The whole text -/

/-- Scanning cuts a text into complete pieces. -/
theorem scan_cut {opened : List Enclosure} {offset : Nat} {text : List Char}
    {pieces : List Piece} (scanned : scan opened offset text = .ok pieces) :
    Cut text pieces := by
  fun_induction scan opened offset text generalizing pieces with
  | case1 opened offset =>
      unfold checkClosed at scanned
      split at scanned
      · cases scanned
      · cases scanned
        exact .nil
  | case2 => cases scanned
  | case3 opened offset c rest piece read ih =>
      obtain ⟨behind, shape, complete⟩ := readPiece_starts (List.cons_ne_nil c rest) read
      cases scannedRest : scan (piece.opens opened offset) (offset + utf8Length piece.raw)
          (rest.drop (piece.raw.length - 1)) with
      | error fault =>
          rw [scannedRest] at scanned
          cases scanned
      | ok others =>
          rw [scannedRest] at scanned
          cases scanned
          rw [shape]
          exact .cons complete (complete.drop_eq shape ▸ ih scannedRest)

/-! ## Tokens -/

theorem tokenize_scan {file source : String} {tokens : List Token} :
    tokenize file source = .ok tokens ↔
      ∃ pieces, scan [] 0 source.toList = .ok pieces ∧
        tokens = (Layout.ofPieces pieces).tokens file := by
  unfold tokenize
  cases scan [] 0 source.toList <;> simp [eq_comm]

theorem tokenize_error {file source : String} {fault : Fault} :
    tokenize file source = .error fault ↔
      ∃ cause offset, scan [] 0 source.toList = .error (cause, offset) ∧
        fault = { cause, position := Layout.positionAt file offset } := by
  unfold tokenize
  rcases scan [] 0 source.toList with ⟨cause, offset⟩ | pieces
  · constructor
    · rintro ⟨⟩
      exact ⟨cause, offset, rfl, rfl⟩
    · rintro ⟨_, _, ⟨⟩, rfl⟩
      rfl
  · simp

end NixSyntax
