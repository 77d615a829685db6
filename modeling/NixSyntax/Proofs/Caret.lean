/-
Module: NixSyntax.Proofs.Caret
Purpose: Where the caret of a report stands: as many columns behind the indentation as there are
  bytes in front of the fault, which is under the fault if these bytes are characters.
Main exports: shownPart, Points, Place.ofOffset_split, Fault.report_ends, parse_solid, parse_caret
-/
import Mathlib.Data.List.DropRight
import NixSyntax.Fault.Report
import NixSyntax.Proofs.Guarded
import NixSyntax.Proofs.Lines
import NixSyntax.Proofs.Slices
import NixSyntax.Proofs.Spacing

namespace NixSyntax

/-!
A report prints the line of the fault without its indentation, and below it as
many dashes as the column of the fault has bytes behind the indentation.  The
indentation has one byte for each character.  So the dashes stand below the
characters in front of the fault as long as each of these takes one byte, and
every longer one moves the caret away from the fault.  Blanks at the end of the
line are left out too, but no fault lies at a blank outside text of a string.
-/

/-- What stands in front of a place on its line, given all that stands in front
of it. -/
def linePart (front : List Char) : List Char :=
  front.rtakeWhile (· ≠ '\n')

/-- The same without the indentation of the line. -/
def shownPart (front : List Char) : List Char :=
  (linePart front).dropWhile isIndent

/-- The last two lines of a text. -/
structure EndsInLines (text : String) (above last : List Char) : Prop where
  split : ∃ front, text.toList = front ++ '\n' :: (above ++ '\n' :: last)
  separate : '\n' ∉ above ∧ '\n' ∉ last

/-- In the last line of a report the caret stands in the column `caret`.  In the
line above it the character `c` stands in the column `place`, behind a margin and
the text `shown`. -/
def Points (report : String) (shown : List Char) (c : Char) (place caret : Nat) : Prop :=
  ∃ margin rest pointer,
    EndsInLines report (margin ++ shown ++ c :: rest) (pointer ++ ['^']) ∧ '^' ∉ pointer ∧
      (margin ++ shown).length = place ∧ pointer.length = caret

/-! ## The line of a place -/

theorem linePart_append {lineFront before : List Char} (clean : '\n' ∉ before)
    (starts : lineFront = [] ∨ ∃ earlier, lineFront = earlier ++ ['\n']) :
    linePart (lineFront ++ before) = before := by
  have all : ∀ c ∈ before.reverse, decide (c ≠ '\n') = true := by
    intro c member
    rw [List.mem_reverse] at member
    simpa using fun feed : c = '\n' => clean (feed ▸ member)
  rw [linePart, List.rtakeWhile, List.reverse_append, List.takeWhile_append_of_pos all]
  rcases starts with rfl | ⟨earlier, rfl⟩ <;> simp

/-- The line of a place reaches from the line feed in front of it to the next
one. -/
theorem LineAt.linePart_eq {text lineFront line lineBack front back : List Char} {c : Char}
    (lineAt : LineAt text lineFront line lineBack) (split : text = front ++ c :: back)
    {column : Nat} (place : utf8Length lineFront + column = utf8Length front)
    (inside : column < utf8Length line) :
    utf8Length (linePart front) = column ∧ ∃ rest, line = linePart front ++ c :: rest := by
  have whole := lineAt.text_eq
  rw [split, List.append_assoc] at whole
  obtain ⟨before, rfl, ahead⟩ := prefix_of_utf8Length_le whole.symm (by omega)
  rw [utf8Length_append] at place
  obtain ⟨rest, shape, -⟩ := prefix_of_utf8Length_le ahead.symm (by omega)
  have nonempty : rest ≠ [] := by
    rintro rfl
    rw [shape, utf8Length_append, utf8Length_nil] at inside
    omega
  obtain ⟨d, rest, rfl⟩ := List.exists_cons_of_ne_nil nonempty
  rw [shape, List.append_assoc, List.cons_append] at ahead
  obtain ⟨rfl, -⟩ := List.cons.inj (List.append_cancel_left ahead)
  -- The line feed of the line is its last character, so none is in front of it.
  have clean : '\n' ∉ before := by
    rcases lineAt.ends with ⟨body, clean, ends⟩ | ⟨clean, -⟩
    · have kept := congrArg List.dropLast (shape.symm.trans ends)
      rw [List.dropLast_append_of_ne_nil (List.cons_ne_nil _ _), List.dropLast_concat] at kept
      exact fun member => clean (kept ▸ List.mem_append_left _ member)
    · exact fun member => clean (shape ▸ List.mem_append_left _ member)
  rw [linePart_append clean lineAt.starts]
  exact ⟨by omega, rest, shape⟩

/-- The place of an offset: the line of the character that stands there, and how
many bytes the line has in front of it. -/
theorem Place.ofOffset_split {source : String} {front back : List Char} {c : Char}
    (split : source.toList = front ++ c :: back) :
    ∃ lineFront lineBack rest,
      LineAt source.toList lineFront (ofOffset source (utf8Length front)).text lineBack ∧
      (ofOffset source (utf8Length front)).column = utf8Length (linePart front) ∧
      (ofOffset source (utf8Length front)).text = linePart front ++ c :: rest := by
  have inside : utf8Length front < source.utf8ByteSize := by
    have positive := c.utf8Size_pos
    rw [← utf8Length_toList, split, utf8Length_append, utf8Length_cons]
    omega
  obtain ⟨lineFront, lineBack, lineAt, place, within, -⟩ := ofOffset_inside inside
  obtain ⟨column, rest, text⟩ := lineAt.linePart_eq split place within
  exact ⟨lineFront, lineBack, rest, lineAt, column.symm, text⟩

/-! ## The last two lines of a report -/

theorem takeWhile_isIndent_size (text : List Char) :
    utf8Length (text.takeWhile isIndent) = (text.takeWhile isIndent).length := by
  rw [utf8Length_eq_length]
  intro c member
  have indent := List.mem_takeWhile_imp member
  simp only [isIndent, Bool.or_eq_true, beq_iff_eq] at indent
  rcases indent with rfl | rfl <;> rfl

/-- Blanks at the end are cut off behind a character that is none. -/
theorem trimRight_append {before after : List Char} {c : Char} (solid : isBlank c = false) :
    trimRight (before ++ c :: after) = before ++ c :: trimRight after := by
  rw [trimRight, List.reverse_append, List.reverse_cons, List.append_assoc, List.dropWhile_append]
  split
  · next empty => simp_all [trimRight]
  · simp [trimRight]

/-- The line feed at the end of a line is cut off, and there is no other. -/
theorem LineAt.newline_notMem_trimRight {text front line back part : List Char}
    (lineAt : LineAt text front line back) (suffix : part <:+ line) : '\n' ∉ trimRight part := by
  have shorter (text : List Char) : trimRight text <+: text := List.rdropWhile_prefix isBlank text
  rcases lineAt.ends with ⟨body, clean, rfl⟩ | ⟨clean, -⟩
  · rcases List.suffix_concat_iff.1 suffix with rfl | ⟨part, rfl, inside⟩
    · exact List.not_mem_nil
    · have cut : trimRight (part ++ ['\n']) = trimRight part :=
        List.rdropWhile_concat_pos isBlank part '\n' (by decide)
      rw [cut]
      exact fun member => clean (inside.subset ((shorter part).subset member))
  · exact fun member => clean (suffix.subset ((shorter part).subset member))

theorem newline_notMem_number (number : Nat) : '\n' ∉ (toString number).toList := by
  have digits : (toString number).toList = Nat.toDigits 10 number := String.toList_ofList
  rw [digits]
  intro member
  have digit := Nat.isDigit_of_mem_toDigits (by decide) (by decide) member
  exact absurd digit (by decide)

/-- Dropping the indentation of a line leaves what stands behind it. -/
theorem drop_indent (before after : List Char) {c : Char} (solid : isIndent c = false) :
    ((before ++ c :: after).takeWhile isIndent).length = (before.takeWhile isIndent).length ∧
      (before ++ c :: after).drop (before.takeWhile isIndent).length =
        before.dropWhile isIndent ++ c :: after := by
  constructor
  · rw [List.takeWhile_append]
    split
    · next whole => simp [solid, whole]
    · rfl
  · have parts : before.takeWhile isIndent ++ before.dropWhile isIndent = before :=
      List.takeWhile_append_dropWhile
    conv_lhs => rw [← parts, List.append_assoc]
    rw [parts]
    exact List.drop_left

/-- The last two of five lines. -/
theorem endsInLines_intercalate (first second third : String) {above last : String}
    {aboveText lastText : List Char} (isAbove : above.toList = aboveText)
    (isLast : last.toList = lastText) (separate : '\n' ∉ aboveText ∧ '\n' ∉ lastText) :
    EndsInLines ("\n".intercalate [first, second, third, above, last]) aboveText lastText where
  split := ⟨(first ++ "\n" ++ second ++ "\n" ++ third).toList, by
    have joined : "\n".intercalate [first, second, third, above, last] =
        first ++ "\n" ++ second ++ "\n" ++ third ++ "\n" ++ above ++ "\n" ++ last :=
      rfl
    rw [joined, ← isAbove, ← isLast]
    simp⟩
  separate := separate

/-- The report ends with the line of the fault, without its indentation, and
below it with a caret behind as many dashes as there are bytes in front of the
fault. -/
theorem Fault.report_ends {fault : Fault} {source : String} {front back : List Char} {c : Char}
    (split : source.toList = front ++ c :: back)
    (place : fault.position.offset.toNat = utf8Length front) (solid : isBlank c = false) :
    ∃ margin, Points (fault.report source) (shownPart front) c
      (margin + (shownPart front).length) (margin + utf8Length (shownPart front)) := by
  obtain ⟨lineFront, lineBack, rest, lineAt, column, text⟩ := Place.ofOffset_split split
  rw [report, place, reportLines]
  generalize Place.ofOffset source (utf8Length front) = found at lineAt column text
  have noIndent : isIndent c = false := by
    rw [Bool.eq_false_iff]
    intro indent
    simp only [isIndent, Bool.or_eq_true, beq_iff_eq] at indent
    rcases indent with rfl | rfl <;> exact absurd solid (by decide)
  obtain ⟨indent, dropped⟩ := drop_indent (linePart front) rest noIndent
  rw [← text] at indent dropped
  rw [← indent] at dropped
  have bytes := congrArg utf8Length
    (List.takeWhile_append_dropWhile (p := isIndent) (l := linePart front))
  rw [utf8Length_append, takeWhile_isIndent_size, ← column, ← indent] at bytes
  have fill : found.column - (found.text.takeWhile isIndent).length =
      utf8Length (shownPart front) := by
    rw [shownPart]
    omega
  have oneLine := lineAt.newline_notMem_trimRight
    (List.drop_suffix (found.text.takeWhile isIndent).length found.text)
  have number := newline_notMem_number found.line
  simp only [dropped, trimRight_append solid, fill] at oneLine ⊢
  generalize toString found.line = shown at number ⊢
  refine ⟨(shown ++ " | ").toList.length, (shown ++ " | ").toList, trimRight rest,
    List.replicate (shown.length + 1) ' ' ++ ['|', ' '] ++
      List.replicate (utf8Length (shownPart front)) '-', ?_, ?_, List.length_append, ?_⟩
  · refine endsInLines_intercalate _ _ _ (by simp [shownPart]) (by simp [caret]) ⟨?_, by simp⟩
    rw [List.append_assoc, List.mem_append, not_or, String.toList_append]
    exact ⟨by simpa using number, oneLine⟩
  · simp
  · simp [String.length_toList]
    omega

/-! ## What stands at a fault -/

/-- A lexeme starts with no blank, unless it is text of a string. -/
theorem readPiece_solid {opened : List Enclosure} {text behind : List Char} {lexeme : Lexeme}
    (read : readPiece opened text = .ok (.lexeme lexeme)) (shape : text = lexeme.raw ++ behind) :
    lexeme.kind = .fragment ∨ EndsBlank lexeme.raw := by
  by_cases code : InCode opened
  · right
    rw [readPiece_code code] at read
    have solid := readCode_solid read
    intro c head
    apply solid
    rw [shape, List.head?_append, head]
    rfl
  · obtain ⟨opener, close, -, -, closes, string⟩ := readPiece_string code text
    rw [string] at read
    rcases stringPiece_ok read with ⟨value, width, -, -, ⟨⟩⟩ | ⟨kind, delimiter, ⟨⟩⟩
    · exact .inl rfl
    · right
      have delimiters : ∀ kind ∈ [Kind.interpOpen, .curlyClose, .interpClose, .quoteClose,
          .indentClose], kind.spelling.toList.head?.all fun c => !isBlank c := by
        decide +kernel
      have among : kind ∈ [Kind.interpOpen, .curlyClose, .interpClose, .quoteClose,
          .indentClose] := by
        rcases delimiter with rfl | rfl
        · decide
        · cases opener <;> cases closes <;> decide
      intro c head
      have front : kind.spelling.toList.head? = some c := head
      simpa [front] using delimiters kind among

theorem scan_solid {opened : List Enclosure} {offset : Nat} {text : List Char}
    {pieces : List Piece} (scanned : scan opened offset text = .ok pieces) :
    ∀ lexeme ∈ Piece.lexemes pieces, lexeme.kind = .fragment ∨ EndsBlank lexeme.raw := by
  induction pieces generalizing opened offset text with
  | nil => nofun
  | cons piece pieces ih =>
      rcases scan_ok scanned with ⟨_, absurd, _⟩ | ⟨_, _, _, shape, -, read, ⟨⟩, further⟩
      · cases absurd
      cases piece with
      | trivium it => exact ih further
      | lexeme it => exact List.forall_mem_cons.2 ⟨readPiece_solid read shape, ih further⟩

theorem Layout.tokensFrom_solid {file : String} {items : List (Lexeme × Gap)}
    (solid : ∀ lexeme ∈ items.map Prod.fst, lexeme.kind = .fragment ∨ EndsBlank lexeme.raw)
    (offset : Nat) (above : Gap) :
    ∀ token ∈ tokensFrom file offset above items,
      token.kind = .fragment ∨ EndsBlank token.raw.toList := by
  induction items generalizing offset above with
  | nil => exact List.forall_mem_cons.2 ⟨.inr nofun, nofun⟩
  | cons item items ih =>
      obtain ⟨first, others⟩ := List.forall_mem_cons.1 solid
      refine List.forall_mem_cons.2 ⟨first.imp_right fun ends => ?_, ih others _ _⟩
      rwa [tokenAt, String.toList_ofList]

/-- A token starts with no blank, unless it is text of a string. -/
theorem tokenize_solid {file source : String} {tokens : List Token}
    (done : tokenize file source = .ok tokens) :
    ∀ token ∈ tokens, token.kind = .fragment ∨ EndsBlank token.raw.toList := by
  obtain ⟨pieces, scanned, rfl⟩ := tokenize_scan.1 done
  apply Layout.tokensFrom_solid
  rw [Layout.lexemes_ofPieces]
  exact scan_solid scanned

/-- What cannot be scanned starts with no blank. -/
theorem scan_error_solid {source : String} {cause : Cause} {place : Nat} {c : Char}
    {back : List Char} (failed : scan [] 0 source.toList = .error (cause, place))
    (stands : StandsAt source place (c :: back)) : isBlank c = false := by
  have holds := scan_trueAt failed
  have string : cause = .openString → isBlank c = false := by
    intro isString
    obtain ⟨opening, -, here, quotes⟩ := holds.openString isString
    rw [here.unique stands] at quotes
    rcases quotes with ⟨more, same⟩ | ⟨more, same⟩ <;> cases same <;> rfl
  obtain ⟨last, -, ⟨-, left⟩ | ⟨-, unread, -⟩⟩ := scan_stops failed
  · exact string (checkClosed_error left).1
  · cases unread with
    | string => exact string rfl
    | comment =>
        obtain ⟨more, here, -⟩ := holds.openComment rfl
        cases here.unique stands
        rfl
    | @code _ shown =>
        obtain ⟨d, more, here, -, absent⟩ := holds.unrecognised shown rfl
        cases here.unique stands
        have noBlank := absent (Lexicon.run isBlank) List.mem_cons_self
        exact Lexicon.absent_run.1 noBlank c rfl

/-- A parse of the tokens of a text fails at one that is no text of a string. -/
theorem parseTokens_outside {options : Options} {source : String} {tokens : List Token}
    {fault : Fault} (done : tokenize options.file source = .ok tokens)
    (failed : parseTokens options tokens = .error fault) :
    ∃ token ∈ tokens, token.kind ≠ .fragment ∧ fault.position = token.span.start := by
  obtain ⟨same, ended⟩ := Stream.ended_ofTokens options.file (ends_of_tokenize done)
  have start : (Stream.ofTokens options.file tokens).Enclosed [] []
      (.ofTokens options.file tokens) :=
    .start ended (same ▸ nested_signs done)
  have outside : (Watch.outside (.ofTokens options.file tokens)).Sees ⟨false, [], none⟩ _ _ _ :=
    Parser.document_outside options.fallback options.maxDepth calm_nil
  obtain ⟨target, stuck⟩ := parseTokens_error.1 failed
  rcases outside.of_error ⟨start, List.suffix_rfl⟩ nofun stuck with
    ⟨-, bare, member, noText, place⟩ | ⟨⟨⟩⟩
  obtain ⟨token, listed, rfl⟩ := List.mem_map.1 member
  rw [Stream.tokens_tokenize done] at listed
  exact ⟨token, listed, noText, place⟩

/-- A token of a text stands where its span starts, in front of what is behind it. -/
theorem tokenize_standsAt_token {file source : String} {tokens : List Token}
    (short : source.utf8ByteSize < 2 ^ 32) (done : tokenize file source = .ok tokens)
    {token : Token} (member : token ∈ tokens) :
    ∃ behind, StandsAt source token.span.start.offset.toNat (token.raw.toList ++ behind) := by
  obtain ⟨front, behind, split, span⟩ := (tokenize_tiles done).place member
  refine ⟨behind, front, by rw [split, List.append_assoc], ?_⟩
  rw [span, Nat.zero_add, offset_positionAt]
  refine lt_of_le_of_lt ?_ short
  rw [← utf8Length_toList, split, List.append_assoc, utf8Length_append]
  exact Nat.le_add_right _ _

/-- The character at which a fault lies is no blank. -/
theorem parse_solid {options : Options} {source : String} {fault : Fault}
    (short : source.utf8ByteSize < 2 ^ 32) (failed : parse options source = .error fault)
    (inside : fault.position.offset.toNat < source.utf8ByteSize) :
    ∃ c back, StandsAt source fault.position.offset.toNat (c :: back) ∧ isBlank c = false := by
  have present {back : List Char} (stands : StandsAt source fault.position.offset.toNat back) :
      back ≠ [] := by
    rintro rfl
    obtain ⟨front, split, place⟩ := stands
    rw [← place, ← utf8Length_toList, split, List.append_nil] at inside
    exact Nat.lt_irrefl _ inside
  rcases parse_error.1 failed with unread | ⟨tokens, done, refused⟩
  · obtain ⟨cause, offset, stopped, rfl⟩ := tokenize_error.1 unread
    obtain ⟨back, stands⟩ := (scan_trueAt stopped).inside
    rw [offset_positionAt (stands.le_size.trans_lt short)] at present ⊢
    obtain ⟨c, back, rfl⟩ := List.exists_cons_of_ne_nil (present stands)
    exact ⟨c, back, stands, scan_error_solid stopped stands⟩
  · obtain ⟨token, member, noText, start⟩ := parseTokens_outside done refused
    obtain ⟨others, last, rfl, -, -, -, ends, filled⟩ := tokenize_ends done
    rcases List.mem_append.1 member with among | isLast
    swap
    · -- Behind the whole text there is no character.
      rw [start, List.mem_singleton.1 isLast, ends, offset_positionAt short] at inside
      exact absurd inside (Nat.lt_irrefl _)
    obtain ⟨behind, stands⟩ := tokenize_standsAt_token short done member
    have solid := (tokenize_solid done token member).resolve_left noText
    cases text : token.raw.toList with
    | nil => exact absurd (String.toList_eq_nil_iff.1 text) (filled token among).2
    | cons c tail =>
        rw [text] at stands solid
        exact ⟨c, tail ++ behind, start ▸ stands, Bool.eq_false_iff.2 (solid c rfl)⟩

/-! ## The column of the caret -/

/-- The caret of a report stands under the character at which the fault lies if
and only if each character that the line shows in front of it has one byte.
Otherwise it stands as many columns further right as there are more bytes. -/
theorem parse_caret (options : Options) (source : String) (fault : Fault)
    (short : source.utf8ByteSize < 2 ^ 32) (failed : parse options source = .error fault)
    (inside : fault.position.offset.toNat < source.utf8ByteSize) :
    ∃ front c back, source.toList = front ++ c :: back ∧
      utf8Length front = fault.position.offset.toNat ∧
      ∃ place caret, Points (fault.report source) (shownPart front) c place caret ∧
        caret + (shownPart front).length = place + utf8Length (shownPart front) ∧
        (caret = place ↔ ∀ x ∈ shownPart front, x.utf8Size = 1) := by
  obtain ⟨c, back, ⟨front, split, place⟩, solid⟩ := parse_solid short failed inside
  obtain ⟨margin, points⟩ := Fault.report_ends split place.symm solid
  refine ⟨front, c, back, split, place, _, _, points, by omega, ?_⟩
  rw [Nat.add_left_cancel_iff]
  exact utf8Length_eq_length

/-- An assignment in a list, behind an indentation of a tab and a blank. -/
theorem parse_caret_indented :
    "[\n\t a = 1 ]".utf8ByteSize < 2 ^ 32 ∧
      ∃ fault, parse { maxDepth := 4 } "[\n\t a = 1 ]" = .error fault ∧
        fault.position.offset.toNat < "[\n\t a = 1 ]".utf8ByteSize ∧
        ∃ front c back, "[\n\t a = 1 ]".toList = front ++ c :: back ∧
          utf8Length front = fault.position.offset.toNat ∧
          ∃ place caret, Points (fault.report "[\n\t a = 1 ]") (shownPart front) c place caret ∧
            caret + (shownPart front).length = place + utf8Length (shownPart front) ∧
            (caret = place ↔ ∀ x ∈ shownPart front, x.utf8Size = 1) := by
  obtain ⟨fault, failed, place⟩ :
      ∃ fault, parse { maxDepth := 4 } "[\n\t a = 1 ]" = .error fault ∧
        fault.position.offset.toNat = 6 :=
    ⟨_, by cbv, by decide⟩
  have short : "[\n\t a = 1 ]".utf8ByteSize < 2 ^ 32 := by decide
  have inside : fault.position.offset.toNat < "[\n\t a = 1 ]".utf8ByteSize := by
    rw [place]
    decide
  exact ⟨short, fault, failed, inside, parse_caret _ _ _ short failed inside⟩

/-- Behind a letter of two bytes the caret stands one column too far to the
right. -/
theorem caret_behind_accent :
    "\"é\" )".utf8ByteSize < 2 ^ 32 ∧
      ∃ fault, parse { maxDepth := 4 } "\"é\" )" = .error fault ∧
        fault.position.offset.toNat < "\"é\" )".utf8ByteSize ∧
        "\"é\" )".toList = ['"', 'é', '"', ' '] ++ [')'] ∧
        fault.position.offset.toNat = utf8Length ['"', 'é', '"', ' '] ∧
        fault.report "\"é\" )" =
          "Error: UnexpectedToken (Unexpected `)`, expected `end of input`)\n" ++
            "-> <input>\n  |\n1 | \"é\" )\n  | -----^" ∧
        Points (fault.report "\"é\" )") ['"', 'é', '"', ' '] ')' 8 9 := by
  refine ⟨by decide, _, by cbv, by decide, by decide, by decide, by cbv, ?_⟩
  refine ⟨"1 | ".toList, [], "  | -----".toList, ⟨?_, by decide⟩, by decide, by decide, by decide⟩
  refine ⟨("Error: UnexpectedToken (Unexpected `)`, expected `end of input`)\n" ++
    "-> <input>\n  |").toList, ?_⟩
  cbv

end NixSyntax
