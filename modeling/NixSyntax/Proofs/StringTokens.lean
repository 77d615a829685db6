/-
Module: NixSyntax.Proofs.StringTokens
Purpose: The tokens of a printed string that holds nothing but text.
Main exports: tokenize_quoted, tokenize_indented, indented_quote_lost
-/
import NixSyntax.Proofs.Indenting
import NixSyntax.Proofs.Lexed
import NixSyntax.Proofs.Reread

namespace NixSyntax

/-- Text in double quotes is split into the tokens of a string that stands for it,
whatever the text is.  Only the empty text makes no token of its own. -/
theorem tokenize_quoted (file text : String) :
    ∃ tokens, tokenize file (StringPart.quotedText false [.literal text]) = .ok tokens ∧
      tokens.map Token.sign =
        .mark .quoteOpen :: (if text = "" then [] else [⟨.fragment, text⟩]) ++
          [.mark .quoteClose, .endOfInput] := by
  have inner : InQuotes (StringPart.text false [.literal text])
      (if text = "" then [] else [⟨.fragment, text⟩]) := by
    by_cases empty : text = ""
    · rw [if_pos empty, empty]
      exact .empty
    · rw [if_neg empty]
      exact InQuotes.empty.literal empty (fun _ => rfl) nofun
  obtain ⟨tokens, split, known, -⟩ := (Legible.quotes inner).tokenize trivial file
  refine ⟨tokens, split, ?_⟩
  rw [known]
  simp

/-! ## Indented strings -/

/-- The quotes of an indented string as a piece. -/
def Piece.indentQuotes (kind : Kind) : Piece :=
  .lexeme (.plain kind ['\'', '\''])

theorem Piece.indentQuotes_present (kind : Kind) : (Piece.indentQuotes kind).raw ≠ [] :=
  List.cons_ne_nil _ _

/-- Behind the opening quotes the scanner reads what the text between the quotes is
read as. -/
theorem scan_indented (text : String) :
    scan [] 0 (StringPart.quotedText true [.literal text]).toList =
      (scan [.indented 0] 2 (escapeIndented text.toList ++ ['\'', '\''])).map
        (.indentQuotes .indentOpen :: ·) := by
  have shape : (StringPart.quotedText true [.literal text]).toList =
      (Piece.indentQuotes .indentOpen).raw ++ (escapeIndented text.toList ++ ['\'', '\'']) := by
    simp [StringPart.quotedText, StringPart.text, stringQuotes, escapeLiteral, Piece.indentQuotes,
      Piece.raw, Lexeme.plain]
  rw [shape]
  exact scan_read (Piece.indentQuotes_present _) rfl

/-- The closing quotes end the string and the text. -/
theorem scan_indentClose (start offset : Nat) :
    scan [.indented start] offset ['\'', '\''] = .ok [.indentQuotes .indentClose] := by
  have run : scan [.indented start] offset ((Piece.indentQuotes .indentClose).raw ++ []) = _ :=
    scan_read (Piece.indentQuotes_present _) rfl
  refine run.trans ?_
  show (scan [] (offset + 2) []).map _ = _
  rw [scan]
  rfl

theorem escapeIndented_ne_nil {text : List Char} (present : text ≠ []) :
    escapeIndented text ≠ [] := by
  unfold escapeIndented
  split
  · exact absurd rfl present
  all_goals exact List.cons_ne_nil _ _

/-- The fragment that stands for a text which is read back from its escapes. -/
theorem scan_fragment {text : List Char} (present : text ≠ []) (paired : QuotesPaired text)
    (start offset : Nat) :
    scan [.indented start] offset (escapeIndented text ++ ['\'', '\'']) =
      .ok [.lexeme ⟨.fragment, text, escapeIndented text⟩, .indentQuotes .indentClose] := by
  have width := escapeIndented_ne_nil present
  have read : readPiece [.indented start] (escapeIndented text ++ ['\'', '\'']) =
      .ok (.lexeme ⟨.fragment, text, escapeIndented text⟩) := by
    have whole := rereadIndented_paired paired
    rw [rereadIndented] at whole
    rw [readPiece, whole, stringPiece, if_pos (List.length_pos_iff.2 width), List.take_left]
  have run : scan [.indented start] offset
      ((Piece.lexeme ⟨.fragment, text, escapeIndented text⟩).raw ++ ['\'', '\'']) = _ :=
    scan_read width read
  refine run.trans ?_
  show (scan [.indented start] _ ['\'', '\'']).map _ = _
  rw [scan_indentClose]
  rfl

/-- A fragment that is read of the escapes is read as `rereadIndented` says. -/
theorem rereadIndented_of_scan {text : List Char} {start offset : Nat} {pieces : List Piece}
    {value : String} {signs : List Sign}
    (scanned : scan [.indented start] offset (escapeIndented text ++ ['\'', '\'']) = .ok pieces)
    (known : Piece.signs pieces = ⟨.fragment, value⟩ :: signs) :
    ∃ width, rereadIndented text = some (value.toList, width) := by
  rcases scan_ok scanned with ⟨none, -⟩ | ⟨piece, behind, others, -, -, read, rfl, -⟩
  · simp at none
  · rcases stringPiece_ok read with ⟨found, width, whole, -, rfl⟩ | ⟨kind, listed, rfl⟩
    · obtain ⟨same, -⟩ := List.cons.inj known
      obtain rfl : String.ofList found = value := congrArg Sign.value same
      exact ⟨width, whole.trans (by rw [String.toList_ofList])⟩
    · obtain ⟨same, -⟩ := List.cons.inj known
      obtain rfl : kind = .fragment := congrArg Sign.kind same
      rcases listed with listed | listed <;> cases listed

/-- A parsed indented string that holds nothing but text is printed so that it is
split into the tokens of a string that stands for that text, exactly if no odd run
of single quotes stands at the end of the text or in front of `${`. -/
theorem tokenize_indented {options : Options} {source : String} {document : Document}
    {text : String} (parsed : parse options source = .ok document)
    (shape : document.value.form = .string true [.literal text]) (file : String) :
    (∃ tokens, tokenize file (StringPart.quotedText true [.literal text]) = .ok tokens ∧
        tokens.map Token.sign =
          [.mark .indentOpen, ⟨.fragment, text⟩, .mark .indentClose, .endOfInput]) ↔
      QuotesPaired text.toList := by
  have present : text ≠ "" := by
    have wellFormed := (parse_wellFormed parsed).here
    rw [Expr.WellFormed, shape] at wellFormed
    exact wellFormed.present text List.mem_cons_self
  constructor
  · rintro ⟨tokens, split, known⟩
    obtain ⟨pieces, scanned, signs⟩ := tokenize_ok split
    rw [scan_indented] at scanned
    cases reached : scan [.indented 0] 2 (escapeIndented text.toList ++ ['\'', '\'']) with
    | error fault =>
        rw [reached] at scanned
        cases scanned
    | ok inner =>
    obtain rfl : .indentQuotes .indentOpen :: inner = pieces := by
      rw [reached] at scanned
      exact Except.ok.inj scanned
    have fragment : Piece.signs inner = [⟨.fragment, text⟩, .mark .indentClose] := by
      have whole := signs.symm.trans known
      exact List.append_cancel_right (List.cons.inj whole).2
    obtain ⟨width, read⟩ := rereadIndented_of_scan reached fragment
    exact paired_of_rereadIndented read
  · intro paired
    have scanned : scan [] 0 (StringPart.quotedText true [.literal text]).toList = _ :=
      (scan_indented text).trans
        (congrArg _ (scan_fragment (by simpa using present) paired 0 2))
    refine ⟨_, by rw [tokenize, scanned]; rfl, ?_⟩
    rw [Layout.tokens, Layout.signs_tokensFrom, Layout.signs_ofPieces]
    have same : (⟨.fragment, String.ofList text.toList⟩ : Sign) = ⟨.fragment, text⟩ := by
      rw [String.ofList_toList]
    exact congrArg (fun sign => [.mark .indentOpen, sign, .mark .indentClose, .endOfInput]) same

/-- Pairs of quotes, in front of other text and at the end, and one quote between two
other characters. -/
theorem tokenize_indented_pairs :
    ∃ document, parse {} "''a'''b'c'''''" = .ok document ∧
      document.value.form = .string true [.literal "a''b'c''"] ∧ document.text = "''a'''b'c'''''" ∧
      ∃ tokens, tokenize defaultFile document.text = .ok tokens ∧
        tokens.map Token.sign =
          [.mark .indentOpen, ⟨.fragment, "a''b'c''"⟩, .mark .indentClose, .endOfInput] := by
  have parsed : parse {} "''a'''b'c'''''" = .ok
      { before := [], value := .bare (.string true [.literal "a''b'c''"]), after := [] } := by
    cbv
  have split := (tokenize_indented parsed rfl defaultFile).2 (by decide)
  exact ⟨_, parsed, rfl, by cbv, split⟩

/-- A quote that an escape keeps apart from the end of the string is printed without
the escape.  It ends the string together with the first closing quote, and the second
one opens nothing. -/
theorem indented_quote_lost :
    ∃ document, parse {} "''a''\\'''" = .ok document ∧
      document.value.form = .string true [.literal "a'"] ∧ document.text = "''a'''" ∧
      ∀ file tokens, tokenize file document.text ≠ .ok tokens := by
  have parsed : parse {} "''a''\\'''" = .ok
      { before := [], value := .bare (.string true [.literal "a'"]), after := [] } := by
    cbv
  have printed : Document.text
      { before := [], value := .bare (.string true [.literal "a'"]), after := [] } = "''a'''" := by
    cbv
  refine ⟨_, parsed, rfl, printed, ?_⟩
  intro file tokens split
  rw [printed] at split
  have scanned : scan [] 0 "''a'''".toList = .error (.openString, 0) := by
    cbv
  rw [tokenize, scanned] at split
  cases split

end NixSyntax
