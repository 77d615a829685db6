/-
Module: NixSyntax.Proofs.Spacing
Purpose: The tokens of a text are the tokens of their own source texts with one blank between
  them, but for the inside of strings.
Main exports: Token.spaced, ScansAs, scan_spaced, tokenize_spaced
-/
import NixSyntax.Proofs.Halting
import NixSyntax.Proofs.Reread
import NixSyntax.Proofs.Retaking

namespace NixSyntax

/-!
The spaced text is scanned piece by piece beside the text that its tokens are from.
The two scans keep enclosures that differ only in where strings were opened, and
what is read depends on no such place.  A string is opened in code only, so a blank
follows each delimiter that leads out of it.
-/

/-! ## Spaced texts -/

namespace Kind

/-- Whether a string goes on where the given openers are open, the innermost first. -/
def inString (stack : List Kind) : Bool :=
  stack.head?.any opensString

/-- What stands between two tokens: a blank, but nothing in a string. -/
def between (stack : List Kind) : String :=
  if inString stack then "" else " "

end Kind

/-- The source texts of tokens, with one blank between two of them wherever no string
goes on.  `stack` holds the openers that are open in front of them.  The end of the
input is a token too, with nothing to it, so a blank stands in front of it. -/
def Token.spaced (stack : List Kind) : List Token → String
  | [] => ""
  | [last] => last.raw
  | token :: next :: tokens =>
    token.raw ++ Kind.between (token.kind.track stack) ++
      Token.spaced (token.kind.track stack) (next :: tokens)

/-- The lexemes among pieces. -/
def Piece.lexemes : List Piece → List Lexeme
  | [] => []
  | .trivium _ :: rest => lexemes rest
  | .lexeme it :: rest => it :: lexemes rest

/-- The source texts of lexemes, each with what stands between it and a token behind
it. -/
def Lexeme.spaced (stack : List Kind) : List Lexeme → List Char
  | [] => []
  | lexeme :: lexemes =>
    lexeme.raw ++ ((Kind.between (lexeme.kind.track stack)).toList ++
      Lexeme.spaced (lexeme.kind.track stack) lexemes)

theorem Layout.lexemes_ofPieces (pieces : List Piece) :
    (Layout.ofPieces pieces).items.map Prod.fst = Piece.lexemes pieces := by
  induction pieces with
  | nil => rfl
  | cons piece pieces ih =>
      cases piece with
      | trivium it => exact ih
      | lexeme it => exact congrArg (it :: ·) ih

/-- The end of the input has no text, so the spaced text of tokens is that of the
lexemes that they are made of. -/
theorem Layout.spaced_tokensFrom (file : String) (offset : Nat) (above : Gap)
    (items : List (Lexeme × Gap)) (stack : List Kind) :
    (Token.spaced stack (Layout.tokensFrom file offset above items)).toList =
      Lexeme.spaced stack (items.map Prod.fst) := by
  induction items generalizing offset above stack with
  | nil => rfl
  | cons item items ih =>
      obtain ⟨lexeme, gap⟩ := item
      have later := ih (offset + utf8Length lexeme.raw + gap.size) gap.splitLine.2
        (lexeme.kind.track stack)
      rw [tokensFrom]
      cases others : tokensFrom file (offset + utf8Length lexeme.raw + gap.size)
          gap.splitLine.2 items with
      | nil => cases items <;> simp [tokensFrom] at others
      | cons next tokens =>
          rw [others] at later
          rw [Token.spaced, String.toList_append, String.toList_append, List.append_assoc]
          simp only [tokenAt, String.toList_ofList, later, List.map_cons, Lexeme.spaced]

/-! ## Enclosures of the same kinds -/

section Enclosures

variable {opened opened' : List Enclosure}

theorem inString_eq_false :
    Kind.inString (opened.map Enclosure.opener) = false ↔ InCode opened := by
  cases opened with
  | nil => simp [Kind.inString, InCode]
  | cons top below => simp [Kind.inString, InCode, Enclosure.opensString_opener]

/-- What is read depends on the kinds of the enclosures only. -/
theorem readPiece_congr (same : opened'.map Enclosure.opener = opened.map Enclosure.opener)
    (text : List Char) : readPiece opened' text = readPiece opened text := by
  cases opened with
  | nil =>
      rw [List.map_eq_nil_iff.1 same]
  | cons top below =>
      cases opened' with
      | nil => cases same
      | cons top' below' =>
          have tops : top'.opener = top.opener := (List.cons.inj same).1
          cases top <;> cases top' <;> first | rfl | cases tops

/-- Strings are opened in code. -/
def Alternate (opened : List Enclosure) : Prop :=
  opened.IsChain fun top below => top.stringStart?.isSome → below.stringStart? = none

theorem Alternate.next (alternate : Alternate opened) (offset : Nat) {kind : Kind}
    (code : kind.opensString → InCode opened) : Alternate (Enclosure.next opened offset kind) := by
  rcases Enclosure.next_cases opened offset kind with suffix | ⟨top, same, opener, -⟩
  · exact List.IsChain.suffix alternate suffix
  · rw [same]
    refine List.isChain_cons.2 ⟨?_, alternate⟩
    intro below isBelow string
    rw [← Enclosure.opensString_opener, opener] at string
    exact code string below isBelow

theorem checkClosed_congr (same : opened'.map Enclosure.opener = opened.map Enclosure.opener)
    (closed : checkClosed opened = .ok []) : checkClosed opened' = .ok [] := by
  have none_open : ∀ enclosure ∈ opened', enclosure.stringStart? = none := by
    intro enclosure member
    have opener : enclosure.opener ∈ opened.map Enclosure.opener :=
      same ▸ List.mem_map_of_mem member
    obtain ⟨other, inside, equal⟩ := List.mem_map.1 opener
    rw [← Option.not_isSome_iff_eq_none, ← Enclosure.opensString_opener, ← equal,
      Enclosure.opensString_opener, checkClosed_ok closed other inside]
    decide
  have nothing : opened'.filterMap Enclosure.stringStart? = [] :=
    List.filterMap_eq_nil_iff.2 none_open
  rw [checkClosed, nothing]
  rfl

end Enclosures

/-! ## Scanning the spaced text -/

/-- A text is scanned as the given lexemes, and holds no comments. -/
def ScansAs (opened : List Enclosure) (offset : Nat) (text : List Char)
    (lexemes : List Lexeme) : Prop :=
  ∃ pieces, scan opened offset text = .ok pieces ∧ Piece.lexemes pieces = lexemes ∧
    ∀ comment, Piece.trivium (.comment comment) ∉ pieces

section Scans

variable {opened opened' : List Enclosure} {offset : Nat} {text rest behind : List Char}
  {lexeme : Lexeme} {lexemes : List Lexeme} {pieces : List Piece}

theorem ScansAs.piece {piece : Piece} (present : piece.raw ≠ [])
    (quiet : ∀ comment, piece ≠ .trivium (.comment comment))
    (read : readPiece opened (piece.raw ++ rest) = .ok piece)
    (others : ScansAs (piece.opens opened offset) (offset + utf8Length piece.raw) rest lexemes) :
    ScansAs opened offset (piece.raw ++ rest) (Piece.lexemes [piece] ++ lexemes) := by
  obtain ⟨pieces, scanned, rfl, clear⟩ := others
  refine ⟨piece :: pieces, ?_, ?_, ?_⟩
  · rw [scan_read present read, scanned]
    rfl
  · cases piece <;> rfl
  · intro comment member
    rcases List.mem_cons.1 member with here | later
    · exact quiet comment here.symm
    · exact clear comment later

/-- A blank that no other one follows. -/
theorem ScansAs.between (solid : InCode opened → EndsBlank rest)
    (others : ∀ offset, ScansAs opened offset rest lexemes) (offset : Nat) :
    ScansAs opened offset ((Kind.between (opened.map Enclosure.opener)).toList ++ rest)
      lexemes := by
  unfold Kind.between
  split
  · exact others offset
  · next outside =>
      have code : InCode opened := inString_eq_false.1 (by simpa using outside)
      have present : (Piece.trivium (.blank [' '])).raw ≠ [] := List.cons_ne_nil ' ' []
      exact .piece present nofun (readPiece_blank code (solid code)) (others _)

/-- In code the spaced text does not start with a blank. -/
theorem spaced_solid (scanned : scan opened offset text = .ok pieces) (code : InCode opened)
    (stack : List Kind) : EndsBlank (Lexeme.spaced stack (Piece.lexemes pieces)) := by
  induction pieces generalizing offset text with
  | nil => nofun
  | cons piece pieces ih =>
      rcases scan_ok scanned with ⟨_, absurd, _⟩ |
        ⟨_, behind, _, shape, complete, read, ⟨⟩, further⟩
      · cases absurd
      cases piece with
      | trivium it => exact ih further
      | lexeme it =>
          rw [readPiece_code code] at read
          have solid := readCode_solid read
          obtain ⟨c, tail, raw⟩ := List.exists_cons_of_ne_nil complete.raw_ne_nil
          have first : it.raw = c :: tail := raw
          intro d head
          rw [Piece.lexemes, Lexeme.spaced, first] at head
          cases head
          exact solid c (by rw [shape, raw]; rfl)

/-- Behind a delimiter of a string there is code. -/
theorem track_delimiter (alternate : Alternate opened) (inside : ¬ InCode opened)
    {opener close kind : Kind} (top : (opened.map Enclosure.opener).head? = some opener)
    (closes : opener.closer? = some close) (string : opener.opensString)
    (delimiter : kind = .interpOpen ∨ kind = close) :
    Kind.inString (kind.track (opened.map Enclosure.opener)) = false := by
  rcases delimiter with rfl | rfl
  · rfl
  · cases opened with
    | nil => cases top
    | cons outer below =>
        have code : InCode below := by
          intro enclosure isBelow
          refine (List.isChain_cons.1 alternate).1 enclosure isBelow ?_
          rw [← Enclosure.opensString_opener, Option.some.inj top]
          exact string
        have popped : kind.track ((outer :: below).map Enclosure.opener) =
            below.map Enclosure.opener := by
          cases opener <;> cases string <;> cases closes <;> rfl
        rw [popped]
        exact inString_eq_false.2 code

/-- In front of a blank a delimiter of a string is read again, and no literal text. -/
theorem readPiece_delimiter {opener close kind : Kind}
    (top : (opened.map Enclosure.opener).head? = some opener) (string : opener.opensString)
    (closes : opener.closer? = some close) (delimiter : kind = .interpOpen ∨ kind = close)
    (rest : List Char) :
    literalText? opened (kind.spelling.toList ++ ' ' :: rest) = some ([], 0) ∧
      readPiece opened (kind.spelling.toList ++ ' ' :: rest) =
        .ok (.lexeme (.plain kind kind.spelling.toList)) := by
  cases opened with
  | nil => cases top
  | cons outer below =>
      cases outer <;> cases top <;> cases string <;> cases closes <;>
        rcases delimiter with rfl | rfl <;> exact ⟨rfl, rfl⟩

/-- A string that is at a delimiter is there in the spaced text too. -/
theorem spaced_delimiter (alternate : Alternate opened) (inside : ¬ InCode opened)
    (scanned : scan opened offset text = .ok pieces)
    (shut : literalText? opened text = some ([], 0)) :
    literalText? opened
        (Lexeme.spaced (opened.map Enclosure.opener) (Piece.lexemes pieces)) = some ([], 0) ∧
      (Lexeme.spaced (opened.map Enclosure.opener) (Piece.lexemes pieces)).head? =
        text.head? := by
  obtain ⟨opener, close, top, string, closes, reads⟩ := readPiece_string inside text
  rcases scan_ok scanned with ⟨rfl, -, -⟩ | ⟨piece, behind, others, shape, complete, read, rfl, -⟩
  · unfold literalText? at shut
    split at shut <;> cases shut
  rw [reads, shut] at read
  rcases stringPiece_ok read with ⟨_, _, ⟨⟩, absurd, _⟩ | ⟨kind, delimiter, rfl⟩
  · exact (Nat.lt_irrefl 0 absurd).elim
  have outside := track_delimiter alternate inside top closes string delimiter
  have spaced : Lexeme.spaced (opened.map Enclosure.opener)
      (Piece.lexemes (.lexeme (.plain kind kind.spelling.toList) :: others)) =
        kind.spelling.toList ++ ' ' :: Lexeme.spaced (kind.track (opened.map Enclosure.opener))
          (Piece.lexemes others) := by
    rw [Piece.lexemes, Lexeme.spaced, Lexeme.plain, Kind.between, outside]
    rfl
  rw [spaced]
  refine ⟨(readPiece_delimiter top string closes delimiter _).1, ?_⟩
  obtain ⟨c, tail, raw⟩ := List.exists_cons_of_ne_nil complete.raw_ne_nil
  have spelling : kind.spelling.toList = c :: tail := raw
  rw [shape, raw, spelling]
  rfl

/-- Behind a lexeme of code there is a blank, or else the lexeme is one that is read
again whatever follows. -/
theorem between_code (code : InCode opened) (lexed : readLexeme opened text = .ok lexeme)
    (rest : List Char) :
    lexeme.kind ∈ [.quoteOpen, .indentOpen, .curlyClose, .interpClose] ∨
      ((Kind.between (lexeme.kind.track (opened.map Enclosure.opener))).toList ++ rest).head? =
        some ' ' := by
  cases inside : Kind.inString (lexeme.kind.track (opened.map Enclosure.opener)) with
  | false =>
      right
      rw [Kind.between, inside]
      rfl
  | true =>
      left
      have other := (readLexeme_kind lexed).1
      have outside := inString_eq_false.2 code
      revert inside other
      cases lexeme.kind <;> simp [Kind.track, Kind.inString, Kind.opensString] at outside ⊢ <;>
        simp [outside]

/-- Literal text is read again up to what stands behind it. -/
theorem readPiece_literal {value : List Char} {width : Nat} (alternate : Alternate opened)
    (inside : ¬ InCode opened) (literal : literalText? opened text = some (value, width))
    (positive : 0 < width) (further : scan opened offset (text.drop width) = .ok pieces) :
    readPiece opened (text.take width ++
      Lexeme.spaced (opened.map Enclosure.opener) (Piece.lexemes pieces)) =
        .ok (.lexeme { kind := .fragment, value, raw := text.take width }) := by
  have shut := (literalText?_whole literal).1
  obtain ⟨shutAgain, head⟩ := spaced_delimiter alternate inside further shut
  have again := literalText?_take literal shutAgain head
  have short : width ≤ text.length := by
    refine Nat.le_of_lt (Nat.lt_of_not_le fun long => ?_)
    rw [List.drop_eq_nil_of_le long] at shut
    unfold literalText? at shut
    split at shut <;> cases shut
  obtain ⟨_, _, -, -, -, reads⟩ := readPiece_string inside
    (text.take width ++ Lexeme.spaced (opened.map Enclosure.opener) (Piece.lexemes pieces))
  rw [reads, again, stringPiece, if_pos positive, List.take_left' (List.length_take_of_le short)]

/-- Whatever is read of a text is read of the spaced text. -/
theorem readPiece_again (alternate : Alternate opened)
    (read : readPiece opened text = .ok (.lexeme lexeme)) (shape : text = lexeme.raw ++ behind)
    (further : scan (Enclosure.next opened offset lexeme.kind)
      (offset + utf8Length lexeme.raw) behind = .ok pieces) :
    readPiece opened (Lexeme.spaced (opened.map Enclosure.opener)
      (lexeme :: Piece.lexemes pieces)) = .ok (.lexeme lexeme) := by
  rw [Lexeme.spaced]
  by_cases code : InCode opened
  · rw [readPiece_code code] at read
    have lexed := readCode_lexeme read
    exact readPiece_spaced code lexed (between_code code lexed _)
  · obtain ⟨opener, close, top, string, closes, reads⟩ := readPiece_string code text
    rw [reads] at read
    rcases stringPiece_ok read with ⟨value, width, literal, positive, ⟨⟩⟩ | ⟨kind, delimiter, ⟨⟩⟩
    · have dropped : text.drop width = behind :=
        List.append_cancel_left ((List.take_append_drop width text).trans shape)
      have inside : Kind.inString (opened.map Enclosure.opener) = true := by
        rw [← Bool.not_eq_false]
        exact fun outside => code (inString_eq_false.1 outside)
      have tracked : Kind.track (opened.map Enclosure.opener) .fragment =
          opened.map Enclosure.opener := rfl
      rw [tracked, Kind.between, inside, if_pos rfl, String.toList_empty, List.nil_append]
      exact readPiece_literal alternate code literal positive (dropped ▸ further)
    · have outside := track_delimiter alternate code top closes string delimiter
      rw [Lexeme.plain, Kind.between, outside]
      exact (readPiece_delimiter top string closes delimiter _).2

/-- The lexemes of a text are scanned again from its spaced text, whatever the
places at which the open strings were opened. -/
theorem scan_spaced (scanned : scan opened offset text = .ok pieces)
    (alternate : Alternate opened)
    (same : opened'.map Enclosure.opener = opened.map Enclosure.opener) (offset' : Nat) :
    ScansAs opened' offset'
      (Lexeme.spaced (opened.map Enclosure.opener) (Piece.lexemes pieces))
      (Piece.lexemes pieces) := by
  induction pieces generalizing opened opened' offset text offset' with
  | nil =>
      rcases scan_ok scanned with ⟨-, -, closed⟩ | ⟨_, _, _, _, _, _, absurd, _⟩
      · refine ⟨[], ?_, rfl, fun _ => List.not_mem_nil⟩
        rw [Piece.lexemes, Lexeme.spaced, scan, checkClosed_congr same closed]
      · cases absurd
  | cons piece pieces ih =>
      rcases scan_ok scanned with ⟨_, absurd, _⟩ |
        ⟨_, behind, _, shape, complete, read, ⟨⟩, further⟩
      · cases absurd
      cases piece with
      | trivium it => exact ih further alternate same offset'
      | lexeme it =>
          have deeper : Alternate (Enclosure.next opened offset it.kind) :=
            alternate.next offset fun string => (readPiece_opensString read string).1
          have sameBehind : (Enclosure.next opened' offset' it.kind).map Enclosure.opener =
              (Enclosure.next opened offset it.kind).map Enclosure.opener := by
            rw [Enclosure.opener_next, Enclosure.opener_next, same]
          have again := readPiece_again alternate read shape further
          rw [← readPiece_congr same, Lexeme.spaced] at again
          have present : (Piece.lexeme it).raw ≠ [] := complete.raw_ne_nil
          refine .piece present (by rintro _ ⟨⟩) again ?_
          have solid : InCode (Enclosure.next opened' offset' it.kind) →
              EndsBlank (Lexeme.spaced (it.kind.track (opened.map Enclosure.opener))
                (Piece.lexemes pieces)) := by
            intro code
            rw [← inString_eq_false, sameBehind, inString_eq_false] at code
            exact spaced_solid further code _
          have others := ih further deeper sameBehind
          rw [Piece.opens, Enclosure.opener_next] at others
          have spaced := ScansAs.between solid others
          rw [sameBehind, Enclosure.opener_next] at spaced
          exact spaced _
end Scans

/-! ## Tokens -/

theorem Layout.raws_tokensFrom (file : String) (offset : Nat) (above : Gap)
    (items : List (Lexeme × Gap)) :
    (tokensFrom file offset above items).map Token.raw =
      (items.map Prod.fst).map (fun lexeme => String.ofList lexeme.raw) ++ [""] := by
  induction items generalizing offset above with
  | nil => rfl
  | cons item items ih => exact congrArg (_ :: ·) (ih _ _)

/-- The source texts of the tokens of a text, with one blank between two of them
wherever no string goes on, make a text of the same tokens, without comments. -/
theorem tokenize_spaced {file source : String} {tokens : List Token}
    (split : tokenize file source = .ok tokens) :
    ∃ tokens', tokenize file (Token.spaced [] tokens) = .ok tokens' ∧
      tokens'.map Token.sign = tokens.map Token.sign ∧
      tokens'.map Token.raw = tokens.map Token.raw ∧ ∀ token ∈ tokens', token.Quiet := by
  obtain ⟨pieces, scanned, rfl⟩ := tokenize_scan.1 split
  obtain ⟨pieces', again, same, quiet⟩ :
      ScansAs [] 0 (Lexeme.spaced [] (Piece.lexemes pieces)) (Piece.lexemes pieces) :=
    scan_spaced scanned .nil rfl 0
  have text : (Token.spaced [] ((Layout.ofPieces pieces).tokens file)).toList =
      Lexeme.spaced [] (Piece.lexemes pieces) := by
    rw [Layout.tokens, Layout.spaced_tokensFrom, Layout.lexemes_ofPieces]
  obtain ⟨quietLead, quietItems⟩ := Layout.ofPieces_quiet quiet
  refine ⟨(Layout.ofPieces pieces').tokens file, tokenize_scan.2 ⟨pieces', ?_, rfl⟩, ?_, ?_,
    Layout.tokensFrom_quiet file _ quietLead quietItems⟩
  · rw [text]
    exact again
  · rw [Layout.tokens, Layout.tokens, Layout.signs_tokensFrom, Layout.signs_tokensFrom,
      ← Function.comp_def, ← List.map_map, ← List.map_map, Layout.lexemes_ofPieces,
      Layout.lexemes_ofPieces, same]
  · rw [Layout.tokens, Layout.tokens, Layout.raws_tokensFrom, Layout.raws_tokensFrom,
      Layout.lexemes_ofPieces, Layout.lexemes_ofPieces, same]

/-- A comment that kept a name apart from a number, a dot right behind the number, and
strings of both kinds. -/
theorem tokenize_spaced_list :
    ∃ tokens, tokenize "a.nix" "[a/*c*/1.5e3.b # d\n''x$\x7b!c\x7d''\"y$\"]" = .ok tokens ∧
      Token.spaced [] tokens = "[ a 1.5e3 . b ''x$\x7b ! c \x7d'' \"y$\" ] " ∧
      ∃ tokens', tokenize "a.nix" (Token.spaced [] tokens) = .ok tokens' ∧
        tokens'.map Token.sign = tokens.map Token.sign ∧
        tokens'.map Token.raw = tokens.map Token.raw ∧ ∀ token ∈ tokens', token.Quiet := by
  have run : ∃ tokens,
      tokenize "a.nix" "[a/*c*/1.5e3.b # d\n''x$\x7b!c\x7d''\"y$\"]" = .ok tokens ∧
        Token.spaced [] tokens = "[ a 1.5e3 . b ''x$\x7b ! c \x7d'' \"y$\" ] " := by
    refine ⟨_, by cbv, ?_⟩
    cbv
  obtain ⟨tokens, split, text⟩ := run
  exact ⟨tokens, split, text, tokenize_spaced split⟩

end NixSyntax
