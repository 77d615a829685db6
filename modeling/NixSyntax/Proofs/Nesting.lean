/-
Module: NixSyntax.Proofs.Nesting
Purpose: The delimiters of every token stream are well nested.
Main exports: Kind.opensString, Kind.track, Sign.Fits, Nested, scan_nested, tokenize_nested
-/
import Mathlib
import NixSyntax.Proofs.Scanning

namespace NixSyntax

/-!
A stack of kinds follows a token stream: openers go on top, and closers take
their opener off.  The scanner keeps a stack of its own, of enclosures, to tell
text from code.  The two stacks agree after every piece, so what the scanner
reads in an enclosure is what may stand behind its opener.
-/

/-! ## Stacks of openers -/

namespace Kind

/-- The kinds that open a string. -/
def opensString : Kind → Bool
  | quoteOpen | indentOpen => true
  | _ => false

/-- The kind that closes what a kind opens. -/
def closer? : Kind → Option Kind
  | curlyOpen => some curlyClose
  | interpOpen => some interpClose
  | quoteOpen => some quoteClose
  | indentOpen => some indentClose
  | _ => none

theorem closer?_injective {first second close : Kind} (closes : first.closer? = some close)
    (closesToo : second.closer? = some close) : first = second := by
  cases first <;> cases closes <;> cases second <;> first | rfl | cases closesToo

theorem closer?_of_opensString {opener : Kind} (string : opener.opensString) :
    ∃ close, opener.closer? = some close := by
  cases opener <;> cases string <;> exact ⟨_, rfl⟩

/-- Closers are delimiters of their own. -/
theorem closer?_ne {opener close : Kind} (closes : opener.closer? = some close) :
    close ≠ .fragment ∧ close ≠ .interpOpen ∧ close ≠ .endOfInput := by
  cases opener <;> cases closes <;> decide

/-- The openers that are left open behind a token, the innermost first.  A
closing brace leaves an empty stack as it is. -/
def track (stack : List Kind) : Kind → List Kind
  | curlyOpen => curlyOpen :: stack
  | interpOpen => interpOpen :: stack
  | quoteOpen => quoteOpen :: stack
  | indentOpen => indentOpen :: stack
  | curlyClose | interpClose | quoteClose | indentClose => stack.tail
  | _ => stack

end Kind

/-- A sign may stand behind the open openers, the innermost of them first, and
behind a token of the kind `previous`. -/
structure Sign.Fits (stack : List Kind) (previous : Option Kind) (sign : Sign) : Prop where
  /-- What closes an interpolation or a string finds its opener on top. -/
  closes : ∀ opener ∈ [Kind.interpOpen, .quoteOpen, .indentOpen],
    opener.closer? = some sign.kind → stack.head? = some opener
  /-- A closing brace finds its opener on top, or nothing is open. -/
  braces : sign.kind = .curlyClose → stack.head? = some .curlyOpen ∨ stack = []
  /-- String text stands in a string, is not empty, and is in one piece. -/
  fragment : sign.kind = .fragment →
    (∃ opener ∈ stack.head?, opener.opensString) ∧ sign.value ≠ "" ∧ previous ≠ some .fragment
  /-- A string holds text and interpolations up to its own end. -/
  inString : ∀ opener ∈ stack.head?, opener.opensString →
    sign.kind = .fragment ∨ sign.kind = .interpOpen ∨ opener.closer? = some sign.kind
  /-- At the end of the input no string is open. -/
  ends : sign.kind = .endOfInput → ∀ opener ∈ stack, ¬ opener.opensString

/-- Every sign may stand where it stands, behind the open openers and a token of
the kind `previous`. -/
def Nested (stack : List Kind) (previous : Option Kind) : List Sign → Prop
  | [] => True
  | sign :: rest => sign.Fits stack previous ∧ Nested (sign.kind.track stack) (some sign.kind) rest

/-! ## The enclosures of the scanner -/

namespace Enclosure

/-- The opener of an enclosure. -/
def opener : Enclosure → Kind
  | braces => .curlyOpen
  | interpolation => .interpOpen
  | quoted _ => .quoteOpen
  | indented _ => .indentOpen

/-- Scanner and stack keep the same openers. -/
theorem opener_next (opened : List Enclosure) (offset : Nat) (kind : Kind) :
    (next opened offset kind).map opener = kind.track (opened.map opener) := by
  cases kind <;> simp [next, Kind.track, opener]

theorem opensString_opener (enclosure : Enclosure) :
    enclosure.opener.opensString = enclosure.stringStart?.isSome := by
  cases enclosure <;> rfl

end Enclosure

/-- What the scanner reads in the innermost enclosure is code. -/
def InCode (opened : List Enclosure) : Prop :=
  ∀ enclosure ∈ opened.head?, enclosure.stringStart? = none

/-! ## Code -/

theorem ofWord_kind (word : String) :
    Kind.ofWord word = .identifier ∨ Kind.ofWord word ∈ Kind.reserved := by
  unfold Kind.ofWord Kind.ofReserved?
  cases found : Kind.reserved.find? fun kind => kind.spelling == word with
  | none => exact .inl rfl
  | some kind => exact .inr (List.mem_of_find?_eq_some found)

/-- In code no string goes on, and an interpolation is closed only where it is
the innermost enclosure. -/
theorem readLexeme_kind {opened : List Enclosure} {text : List Char} {lexeme : Lexeme}
    (read : readLexeme opened text = .ok lexeme) :
    lexeme.kind ∉ [Kind.fragment, .quoteClose, .indentClose, .endOfInput] ∧
      (lexeme.kind = .interpClose → opened.head? = some .interpolation) ∧
      (lexeme.kind = .curlyClose → opened.head? ≠ some .interpolation) := by
  have taken := readLexeme_read opened text
  rw [read] at taken
  cases taken with
  | path | float | int => simp [Lexeme.plain]
  | word =>
      have words : ∀ kind ∈ Kind.identifier :: Kind.reserved,
          kind ∉ [Kind.fragment, .quoteClose, .indentClose, .endOfInput] ∧ kind ≠ .interpClose ∧
            kind ≠ .curlyClose := by
        decide
      obtain ⟨other, interp, curly⟩ := words _ (List.mem_cons.2 (ofWord_kind _))
      exact ⟨other, fun closes => absurd closes interp, fun closes => absurd closes curly⟩
  | @symbol kind found =>
      have symbols : ∀ kind ∈ Kind.symbols,
          kind ∉ [Kind.fragment, .quoteClose, .indentClose, .endOfInput] ∧
            kind ≠ .interpClose := by
        decide
      obtain ⟨other, interp⟩ := symbols kind (List.mem_of_find?_eq_some found)
      simp only [Lexeme.plain, closingKind]
      split
      · next closes => exact ⟨by decide, fun _ => closes.2, by simp⟩
      · next keeps =>
          exact ⟨other, fun closes => absurd closes interp, fun curly top => keeps ⟨curly, top⟩⟩

theorem readCode_lexeme {opened : List Enclosure} {text : List Char} {lexeme : Lexeme}
    (read : readCode opened text = .ok (.lexeme lexeme)) : readLexeme opened text = .ok lexeme := by
  have taken := readCode_read opened text
  rw [read] at taken
  cases taken with
  | lexeme lexed => exact lexed

theorem readPiece_code {opened : List Enclosure} (code : InCode opened) (text : List Char) :
    readPiece opened text = readCode opened text := by
  unfold readPiece
  split
  · exact absurd (code _ rfl) (by simp [Enclosure.stringStart?])
  · exact absurd (code _ rfl) (by simp [Enclosure.stringStart?])
  · rfl

theorem fits_of_code {opened : List Enclosure} (code : InCode opened) (previous : Option Kind)
    {lexeme : Lexeme} {text : List Char} (read : readLexeme opened text = .ok lexeme) :
    lexeme.sign.Fits (opened.map Enclosure.opener) previous := by
  obtain ⟨other, interp, curly⟩ := readLexeme_kind read
  have outside : ∀ opener ∈ (opened.map Enclosure.opener).head?, ¬ opener.opensString := by
    intro opener top
    rw [List.head?_map, Option.mem_def, Option.map_eq_some_iff] at top
    obtain ⟨enclosure, top, rfl⟩ := top
    rw [Enclosure.opensString_opener, code enclosure top]
    simp
  simp only [List.mem_cons, List.not_mem_nil, or_false, not_or] at other
  obtain ⟨fragment, quote, indent, ended⟩ := other
  constructor
  · intro opener member closes
    simp only [List.mem_cons, List.not_mem_nil, or_false] at member
    rcases member with rfl | rfl | rfl
    · rw [List.head?_map, interp (Option.some.inj closes).symm]
      rfl
    · exact absurd (Option.some.inj closes).symm quote
    · exact absurd (Option.some.inj closes).symm indent
  · intro closes
    cases opened with
    | nil => exact .inr rfl
    | cons top rest =>
        left
        have notInterp := curly closes
        have notString := code top rfl
        cases top <;> simp_all [Enclosure.opener, Enclosure.stringStart?]
  · intro isFragment
    exact absurd isFragment fragment
  · intro opener top opens
    exact absurd opens (outside opener top)
  · intro isEnd
    exact absurd isEnd ended

/-! ## Strings -/

/-- Literal text in front of a delimiter, by the innermost enclosure. -/
def literalText? : List Enclosure → List Char → Option (List Char × Nat)
  | .quoted _ :: _, text => quotedText text
  | .indented _ :: _, text => indentedText text
  | _, _ => none

theorem literalText?_code {opened : List Enclosure} (code : InCode opened) (text : List Char) :
    literalText? opened text = none := by
  unfold literalText?
  split
  · cases code _ rfl
  · cases code _ rfl
  · rfl

/-- Literal text is read as far as it goes, and what is read stands for
something. -/
theorem quotedText_whole {text value : List Char} {width : Nat}
    (read : quotedText text = some (value, width)) :
    quotedText (text.drop width) = some ([], 0) ∧ (0 < width → value ≠ []) := by
  fun_induction quotedText text generalizing value width with
  | case1 => cases read
  | case2 | case3 =>
      cases read
      simp [quotedText]
  | case4 rest ih | case5 c rest ih | case6 c rest _ _ _ _ ih =>
      obtain ⟨⟨value, width⟩, inner, same⟩ := Option.map_eq_some_iff.1 read
      cases same
      exact ⟨by simpa [Nat.add_comm] using (ih inner).1, by simp⟩

theorem indentedText_whole {text value : List Char} {width : Nat}
    (read : indentedText text = some (value, width)) :
    indentedText (text.drop width) = some ([], 0) ∧ (0 < width → value ≠ []) := by
  fun_induction indentedText text generalizing value width with
  | case1 => cases read
  | case5 => cases read
  | case6 | case7 =>
      cases read
      simp [indentedText, *]
  | case2 rest ih | case3 rest ih | case4 c rest ih | case8 rest ih | case9 c rest _ _ _ _ _ _ _ ih =>
      obtain ⟨⟨value, width⟩, inner, same⟩ := Option.map_eq_some_iff.1 read
      cases same
      exact ⟨by simpa [Nat.add_comm] using (ih inner).1, by simp⟩

/-- In a string a piece is text, or, where there is none, the delimiter. -/
theorem stringPiece_ok {literal : Option (List Char × Nat)} {close : Kind} {text : List Char}
    {piece : Piece} (read : stringPiece literal close text = .ok piece) :
    (∃ value width, literal = some (value, width) ∧ 0 < width ∧
        piece = .lexeme { kind := .fragment, value, raw := text.take width }) ∨
      ∃ kind, (kind = .interpOpen ∨ kind = close) ∧
        piece = .lexeme (.plain kind kind.spelling.toList) := by
  unfold stringPiece at read
  split at read
  · cases read
  · next value width =>
      split at read
      · next positive =>
          cases read
          exact .inl ⟨value, width, rfl, positive, rfl⟩
      · cases read
        split
        · exact .inr ⟨.interpOpen, .inl rfl, rfl⟩
        · exact .inr ⟨close, .inr rfl, rfl⟩

/-- Where the scanner is not in code it reads a part of the innermost string. -/
theorem readPiece_string {opened : List Enclosure} (inside : ¬ InCode opened) (text : List Char) :
    ∃ opener close, (opened.map Enclosure.opener).head? = some opener ∧ opener.opensString ∧
      opener.closer? = some close ∧
      readPiece opened text = stringPiece (literalText? opened text) close text := by
  unfold InCode at inside
  push Not at inside
  obtain ⟨enclosure, top, string⟩ := inside
  cases opened with
  | nil => cases top
  | cons outer rest =>
      cases top
      cases enclosure with
      | braces => exact absurd rfl string
      | interpolation => exact absurd rfl string
      | quoted start => exact ⟨_, _, rfl, rfl, rfl, rfl⟩
      | indented start => exact ⟨_, _, rfl, rfl, rfl, rfl⟩

/-- Text of a string is followed by a delimiter. -/
theorem literalText?_whole {opened : List Enclosure} {text value : List Char} {width : Nat}
    (read : literalText? opened text = some (value, width)) :
    literalText? opened (text.drop width) = some ([], 0) ∧ (0 < width → value ≠ []) := by
  unfold literalText? at read
  split at read
  · exact quotedText_whole read
  · exact indentedText_whole read
  · cases read

theorem fits_of_fragment {stack : List Kind} {opener : Kind} (top : stack.head? = some opener)
    (string : opener.opensString) {previous : Option Kind} (first : previous ≠ some .fragment)
    {value : String} (present : value ≠ "") :
    Sign.Fits stack previous { kind := .fragment, value } where
  closes other _ closesOther := absurd rfl (Kind.closer?_ne closesOther).1
  braces isCurly := by cases isCurly
  fragment _ := ⟨⟨opener, top, string⟩, present, first⟩
  inString _ _ _ := .inl rfl
  ends isEnd := by cases isEnd

/-- An interpolation may start in a string, and the string may end. -/
theorem fits_of_delimiter {stack : List Kind} {opener close kind : Kind}
    (top : stack.head? = some opener) (string : opener.opensString)
    (closes : opener.closer? = some close) (delimiter : kind = .interpOpen ∨ kind = close)
    (value : String) (previous : Option Kind) : Sign.Fits stack previous { kind, value } := by
  have closed : ∀ other : Kind, other.closer? = some kind → other = opener := by
    intro other closesOther
    rcases delimiter with rfl | rfl
    · exact absurd rfl (Kind.closer?_ne closesOther).2.1
    · exact Kind.closer?_injective closesOther closes
  have solid : kind ≠ .fragment ∧ kind ≠ .endOfInput := by
    rcases delimiter with rfl | rfl
    · decide
    · exact ⟨(Kind.closer?_ne closes).1, (Kind.closer?_ne closes).2.2⟩
  constructor
  · intro other _ closesOther
    rw [top, closed other closesOther]
  · intro isCurly
    cases (closed .curlyOpen (congrArg some isCurly.symm)).symm
    cases string
  · intro isFragment
    exact absurd isFragment solid.1
  · intro other isTop _
    obtain rfl : opener = other := Option.some.inj (top.symm.trans isTop)
    rcases delimiter with rfl | rfl
    · exact .inr (.inl rfl)
    · exact .inr (.inr closes)
  · intro isEnd
    exact absurd isEnd solid.2

/-- What is read in a string may stand there, and behind text the string is at
a delimiter. -/
theorem fits_of_string {opened : List Enclosure} {text : List Char} {piece : Piece}
    {previous : Option Kind} (inside : ¬ InCode opened)
    (between : previous = some .fragment → literalText? opened text = some ([], 0))
    (read : readPiece opened text = .ok piece) :
    ∃ lexeme, piece = .lexeme lexeme ∧
      lexeme.sign.Fits (opened.map Enclosure.opener) previous ∧
      (lexeme.kind = .fragment → ∀ behind, text = lexeme.raw ++ behind →
        literalText? opened behind = some ([], 0)) := by
  obtain ⟨opener, close, top, string, closes, same⟩ := readPiece_string inside text
  rw [same] at read
  rcases stringPiece_ok read with ⟨value, width, literal, positive, rfl⟩ | ⟨kind, delimiter, rfl⟩
  · obtain ⟨ended, present⟩ := literalText?_whole literal
    have first : previous ≠ some .fragment := by
      intro after
      rw [between after] at literal
      cases literal
      exact Nat.lt_irrefl 0 positive
    refine ⟨_, rfl, fits_of_fragment top string first (by simpa using present positive), ?_⟩
    intro _ behind shape
    have dropped : text.drop width = behind :=
      List.append_cancel_left ((List.take_append_drop width text).trans shape)
    exact dropped ▸ ended
  · refine ⟨_, rfl, fits_of_delimiter top string closes delimiter _ previous, ?_⟩
    intro isFragment
    rcases delimiter with rfl | rfl
    · cases isFragment
    · exact absurd isFragment (Kind.closer?_ne closes).1

/-! ## The whole text -/

/-- No string is open where a text may end. -/
theorem checkClosed_ok {opened : List Enclosure} (closed : checkClosed opened = .ok []) :
    ∀ enclosure ∈ opened, enclosure.stringStart? = none := by
  intro enclosure member
  unfold checkClosed at closed
  split at closed
  · cases closed
  · next nothing =>
      rw [List.getLast?_eq_none_iff, List.filterMap_eq_nil_iff] at nothing
      exact nothing enclosure member

theorem fits_of_end {opened : List Enclosure} (closed : checkClosed opened = .ok [])
    (previous : Option Kind) :
    Sign.endOfInput.Fits (opened.map Enclosure.opener) previous := by
  have outside : ∀ opener ∈ opened.map Enclosure.opener, ¬ opener.opensString := by
    intro opener member
    obtain ⟨enclosure, inside, rfl⟩ := List.mem_map.1 member
    rw [Enclosure.opensString_opener, checkClosed_ok closed enclosure inside]
    simp
  constructor
  · intro other _ closes
    exact absurd rfl (Kind.closer?_ne closes).2.2
  · intro isCurly
    cases isCurly
  · intro isFragment
    cases isFragment
  · intro opener top string
    exact absurd string (outside opener (List.mem_of_mem_head? top))
  · intro _
    exact outside

/-- The scanner keeps the signs nested.  Behind text of a string the string is
at a delimiter, so no second text follows. -/
theorem scan_nested {opened : List Enclosure} {offset : Nat} {text : List Char}
    {pieces : List Piece} (scanned : scan opened offset text = .ok pieces)
    {previous : Option Kind}
    (between : previous = some .fragment → literalText? opened text = some ([], 0)) :
    Nested (opened.map Enclosure.opener) previous (Piece.signs pieces ++ [Sign.endOfInput]) := by
  induction pieces generalizing opened offset text previous with
  | nil =>
      rcases scan_ok scanned with ⟨_, _, closed⟩ | ⟨_, _, _, _, _, _, absurd, _⟩
      · exact ⟨fits_of_end closed previous, trivial⟩
      · cases absurd
  | cons piece pieces ih =>
      rcases scan_ok scanned with ⟨_, absurd, _⟩ |
        ⟨_, behind, _, shape, complete, read, ⟨⟩, further⟩
      · cases absurd
      by_cases code : InCode opened
      · rw [readPiece_code code] at read
        cases piece with
        | trivium it =>
            apply ih further
            intro after
            have text := between after
            rw [literalText?_code code] at text
            cases text
        | lexeme it =>
            have lexed := readCode_lexeme read
            refine ⟨fits_of_code code previous lexed, ?_⟩
            rw [← Enclosure.opener_next opened offset]
            apply ih further
            intro isFragment
            have kind : it.kind = .fragment := Option.some.inj isFragment
            have other := (readLexeme_kind lexed).1
            rw [kind] at other
            exact absurd (by decide) other
      · obtain ⟨it, rfl, fits, whole⟩ := fits_of_string code between read
        refine ⟨fits, ?_⟩
        rw [← Enclosure.opener_next opened offset]
        apply ih further
        intro isFragment
        have kind : it.kind = .fragment := Option.some.inj isFragment
        have same : Piece.opens opened offset (.lexeme it) = opened := by
          rw [Piece.opens, kind]
          rfl
        rw [same]
        exact whole kind behind shape

theorem nested_signs {file source : String} {tokens : List Token}
    (done : tokenize file source = .ok tokens) : Nested [] none (tokens.map Token.sign) := by
  obtain ⟨pieces, scanned, signs⟩ := tokenize_ok done
  exact signs ▸ scan_nested scanned nofun

theorem ends_of_tokenize {file source : String} {tokens : List Token}
    (done : tokenize file source = .ok tokens) :
    ∃ last ∈ tokens.getLast?, last.kind = .endOfInput := by
  obtain ⟨pieces, -, signs⟩ := tokenize_ok done
  have ends : (tokens.map Token.sign).getLast? = some Sign.endOfInput := by
    rw [signs, List.getLast?_concat]
  rw [List.getLast?_map, Option.map_eq_some_iff] at ends
  obtain ⟨last, isLast, sign⟩ := ends
  exact ⟨last, isLast, congrArg Sign.kind sign⟩

/-- The delimiters of the tokens of a text are well nested, up to the end of the
input. -/
theorem tokenize_nested (file source : String) (tokens : List Token)
    (done : tokenize file source = .ok tokens) :
    Nested [] none (tokens.map Token.sign) ∧
      ∃ last ∈ tokens.getLast?, last.kind = .endOfInput :=
  ⟨nested_signs done, ends_of_tokenize done⟩

/-- A set with a string of the other kind inside an interpolation, text on both
sides of it, and a closing brace too many behind the string. -/
theorem tokenize_nested_in_set :
    ∃ tokens, tokenize "a.nix" "\"a$\x7b\x7bb=''c'';\x7d\x7dd\"\x7d" = .ok tokens ∧
      tokens.map Token.kind = [.quoteOpen, .fragment, .interpOpen, .curlyOpen, .identifier,
        .assign, .indentOpen, .fragment, .indentClose, .semicolon, .curlyClose, .interpClose,
        .fragment, .quoteClose, .curlyClose, .endOfInput] ∧
      Nested [] none (tokens.map Token.sign) ∧
      ∃ last ∈ tokens.getLast?, last.kind = .endOfInput := by
  have run : ∃ tokens, tokenize "a.nix" "\"a$\x7b\x7bb=''c'';\x7d\x7dd\"\x7d" = .ok tokens ∧
      tokens.map Token.kind = [.quoteOpen, .fragment, .interpOpen, .curlyOpen, .identifier,
        .assign, .indentOpen, .fragment, .indentClose, .semicolon, .curlyClose, .interpClose,
        .fragment, .quoteClose, .curlyClose, .endOfInput] := by
    refine ⟨_, by cbv, ?_⟩
    cbv
  obtain ⟨tokens, done, kinds⟩ := run
  exact ⟨tokens, done, kinds, tokenize_nested _ _ _ done⟩

end NixSyntax
