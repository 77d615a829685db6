/-
Module: NixSyntax.Proofs.Places
Purpose: A fault lies at a place of its source text, and what it says of that place is so.
Main exports: StandsAt, Cursor.LeftOpen, Cause.TrueAt, Fault.Placed, parse_placed
-/
import NixSyntax.Proofs.Entire
import NixSyntax.Proofs.Halting
import NixSyntax.Proofs.Lexicon

namespace NixSyntax

/-!
The scanner reports a place that it has come to, or that an enclosure remembers
from when it was there.  The parser reports the start of a token, and tokens
start where pieces do.  So every fault lies between two characters of the text.
-/

/-- The text `back` is what the source text holds from the given byte on. -/
def StandsAt (source : String) (place : Nat) (back : List Char) : Prop :=
  ∃ front, source.toList = front ++ back ∧ utf8Length front = place

namespace StandsAt

variable {source : String} {place : Nat} {back : List Char}

theorem le_size (stands : StandsAt source place back) : place ≤ source.utf8ByteSize := by
  obtain ⟨front, split, rfl⟩ := stands
  rw [← utf8Length_toList, split, utf8Length_append]
  exact Nat.le_add_right _ _

theorem isValid (stands : StandsAt source place back) :
    String.Pos.Raw.IsValid source ⟨place⟩ := by
  obtain ⟨front, split, rfl⟩ := stands
  rw [String.Pos.Raw.isValid_iff_exists_append]
  refine ⟨String.ofList front, String.ofList back, ?_, ?_⟩
  · rw [← String.ofList_append, ← split, String.ofList_toList]
  · rw [String.Pos.Raw.ext_iff, String.byteIdx_rawEndPos, ← utf8Length_toList,
      String.toList_ofList]

end StandsAt

/-- A place that the scanner comes to. -/
theorem Cursor.standsAt {source : String} {last : Cursor}
    (reached : Relation.ReflTransGen Step (start source) last) :
    StandsAt source last.offset last.text := by
  obtain ⟨front, split, place⟩ := passed reached
  exact ⟨front, split, by rw [place, start, Nat.zero_add]⟩

/-! ## What the scanner reports -/

/-- The string that is opened at the place `opening` is still open where the text
ends: at the end of a scan, or because literal text of the string takes up all
that is left. -/
def Cursor.LeftOpen (source opening : Cursor) : Prop :=
  ∃ string last, Holds source opening string last ∧
    (last.text = [] ∨
      last.opened = string :: opening.opened ∧ literalText? last.opened last.text = none)

/-- What a fault of the scanner says of the place where it lies. -/
structure Cause.TrueAt (source : String) (place : Nat) (cause : Cause) : Prop where
  inside : ∃ back, StandsAt source place back
  /-- A string is opened here and never closed. -/
  openString : cause = .openString → ∃ opening, opening.offset = place ∧
    StandsAt source place opening.text ∧
    (['"'] <+: opening.text ∨ ['\'', '\''] <+: opening.text) ∧
    (Cursor.start source).LeftOpen opening
  /-- A block comment starts here and never ends. -/
  openComment : cause = .openComment → ∃ back, StandsAt source place ('/' :: '*' :: back) ∧
    ¬ ['*', '/'] <:+: back
  /-- No pattern begins with the character that stands here. -/
  unrecognised : ∀ shown, cause = .unrecognised shown → ∃ c back,
    StandsAt source place (c :: back) ∧ shown = String.singleton c ∧
      ∀ pattern ∈ Lexicon.patterns, Lexicon.Absent pattern (c :: back)

namespace Cause.TrueAt

open Relation (ReflTransGen)

variable {source : String} {place : Nat} {last : Cursor}

/-- What only the scanner could say is not said by the parser. -/
theorem of_grammatical {cause : Cause} (own : cause.lexical = false)
    (inside : ∃ back, StandsAt source place back) : cause.TrueAt source place := by
  refine ⟨inside, ?_, ?_, ?_⟩
  · rintro rfl
    cases own
  · rintro rfl
    cases own
  · rintro shown rfl
    cases own

/-- A string that is open where a scan stops is reported where it was opened. -/
theorem of_string {string : Enclosure} {outer : List Enclosure}
    (reached : ReflTransGen Cursor.Step (.start source) last)
    (among : string :: outer <:+ last.opened) (origin : string.stringStart? = some place)
    (ends : last.text = [] ∨
      last.opened = string :: outer ∧ literalText? last.opened last.text = none) :
    Cause.openString.TrueAt source place := by
  obtain ⟨opening, rfl, holds⟩ := Cursor.holds reached
    (fun _ member => absurd member List.not_mem_nil) among (origin ▸ rfl)
  obtain rfl : opening.offset = place := Option.some.inj (holds.opens.origin.symm.trans origin)
  have stands := Cursor.standsAt holds.reached
  obtain ⟨isString, quotes⟩ := holds.opens.quotes
  have spelled : ['"'] <+: opening.text ∨ ['\'', '\''] <+: opening.text := by
    cases string with
    | quoted start => exact .inl (by simpa [Enclosure.opener, Kind.spelling] using quotes)
    | indented start => exact .inr (by simpa [Enclosure.opener, Kind.spelling] using quotes)
    | braces => cases isString
    | interpolation => cases isString
  refine ⟨⟨_, stands⟩, fun _ => ⟨opening, rfl, stands, spelled, string, last, holds, ends⟩, ?_, ?_⟩
  · rintro ⟨⟩
  · rintro _ ⟨⟩

/-- What cannot be read in code is reported where it stands. -/
theorem of_code {cause : Cause} (reached : ReflTransGen Cursor.Step (.start source) last)
    (present : last.text ≠ []) (unread : Unread last.opened last.text cause)
    (code : InCode last.opened) : cause.TrueAt source last.offset := by
  have stands : StandsAt source last.offset last.text := Cursor.standsAt reached
  cases unread with
  | string inside _ => exact absurd code inside
  | comment _ starts endless =>
      exact ⟨⟨_, stands⟩, nofun, fun _ => ⟨_, starts ▸ stands, endless⟩, nofun⟩
  | code _ failed =>
      obtain ⟨c, rest, shape⟩ := List.exists_cons_of_ne_nil present
      rw [shape] at stands failed
      obtain ⟨rfl, absent⟩ := readCode_unrecognised.1 failed
      refine ⟨⟨_, stands⟩, nofun, nofun, fun other same => ?_⟩
      cases same
      exact ⟨c, rest, stands, rfl, absent⟩

end Cause.TrueAt

/-- Where the scanner is in a string, the innermost enclosure is that string. -/
theorem exists_string {opened : List Enclosure} (inside : ¬ InCode opened) :
    ∃ string outer start, opened = string :: outer ∧ string.stringStart? = some start := by
  unfold InCode at inside
  push Not at inside
  obtain ⟨string, top, isString⟩ := inside
  obtain ⟨outer, rfl⟩ := List.head?_eq_some_iff.1 top
  obtain ⟨start, isStart⟩ := Option.ne_none_iff_exists'.1 isString
  exact ⟨string, outer, start, rfl, isStart⟩

theorem scan_trueAt {source : String} {cause : Cause} {place : Nat}
    (failed : scan [] 0 source.toList = .error (cause, place)) : cause.TrueAt source place := by
  obtain ⟨last, reached, ⟨finished, left⟩ | ⟨present, unread, rfl⟩⟩ := scan_stops failed
  · obtain ⟨rfl, string, member, origin⟩ := checkClosed_error left
    obtain ⟨inner, outer, split⟩ := List.append_of_mem member
    exact .of_string reached ⟨inner, split.symm⟩ origin (.inl finished)
  by_cases code : InCode last.opened
  · have here : faultOffset last.opened last.offset = last.offset := by
      unfold faultOffset
      cases top : last.opened.head? with
      | none => rfl
      | some enclosure => simp [code enclosure top]
    rw [here]
    exact .of_code reached present unread code
  · obtain ⟨string, outer, start, opened, origin⟩ := exists_string code
    have here : faultOffset last.opened last.offset = start := by
      simp [faultOffset, opened, origin]
    rw [here]
    cases unread with
    | string _ endless =>
        exact .of_string reached (opened ▸ List.suffix_rfl) origin (.inr ⟨opened, endless⟩)
    | comment inCode => exact absurd inCode code
    | code inCode => exact absurd inCode code

/-! ## What the parser reports -/

theorem Position.inFile_positionAt (file : String) (offset : Nat) :
    (Layout.positionAt file offset).inFile file = Layout.positionAt file offset := by
  unfold inFile
  split <;> rfl

/-- The tokens of a text are those that a parse of them starts on. -/
theorem Stream.tokens_tokenize {file source : String} {tokens : List Token}
    (done : tokenize file source = .ok tokens) : (ofTokens file tokens).tokens = tokens := by
  obtain ⟨front, last, rfl, atEnd, -⟩ := tokenize_ends done
  rcases tokens_ofTokens file (front ++ [last]) with ⟨same, -⟩ | ⟨_, -, missing⟩
  · have named : ∀ token ∈ front ++ [last], token.inFile file = id token := by
      intro token member
      obtain ⟨_, _, -, span⟩ := (tokenize_tiles done).place member
      rw [Token.inFile, span, Position.inFile_positionAt, Position.inFile_positionAt, ← span]
      rfl
    rw [same, List.map_congr_left named, List.map_id]
  · exact absurd atEnd (missing last List.getLast?_concat)

/-- A parse of tokens fails at one of them, for a reason of its own. -/
theorem parseTokens_inside {options : Options} {tokens : List Token} {fault : Fault}
    (failed : parseTokens options tokens = .error fault) :
    fault.cause.lexical = false ∧
      ∃ token ∈ (Stream.ofTokens options.file tokens).tokens,
        fault.position = token.span.start := by
  obtain ⟨target, -, -, fair⟩ := parseTokens_stops failed
  obtain ⟨bare, member, place⟩ := fair.inside
  obtain ⟨token, listed, rfl⟩ := List.mem_map.1 member
  exact ⟨fair.grammatical, token, listed, place⟩

/-- A token of a text starts in it. -/
theorem tokenize_standsAt {file source : String} {tokens : List Token}
    (done : tokenize file source = .ok tokens) {token : Token} (member : token ∈ tokens) :
    ∃ offset back, StandsAt source offset back ∧
      token.span.start = Layout.positionAt file offset := by
  obtain ⟨front, back, split, span⟩ := (tokenize_tiles done).place member
  refine ⟨utf8Length front, token.raw.toList ++ back, ⟨front, ?_, rfl⟩, ?_⟩
  · rw [split, List.append_assoc]
  · rw [span, Nat.zero_add]

/-! ## What a parse reports -/

/-- Where the fault of a parse lies, and what it says of the text there. -/
structure Fault.Placed (options : Options) (source : String) (fault : Fault) : Prop where
  file : fault.position.file = options.file
  size : fault.position.offset.toNat ≤ source.utf8ByteSize
  /-- No character is split. -/
  boundary : String.Pos.Raw.IsValid source ⟨fault.position.offset.toNat⟩
  /-- If the text has tokens, one of them starts here. -/
  token : ∀ tokens, tokenize options.file source = .ok tokens →
    ∃ token ∈ tokens, fault.position = token.span.start
  cause : fault.cause.TrueAt source fault.position.offset.toNat

theorem Fault.Placed.of_offset {options : Options} {source : String} {fault : Fault}
    {offset : Nat} (short : source.utf8ByteSize < 2 ^ 32)
    (holds : fault.cause.TrueAt source offset)
    (place : fault.position = Layout.positionAt options.file offset)
    (token : ∀ tokens, tokenize options.file source = .ok tokens →
      ∃ token ∈ tokens, fault.position = token.span.start) : fault.Placed options source := by
  obtain ⟨back, stands⟩ := holds.inside
  have here : fault.position.offset.toNat = offset := by
    rw [place, offset_positionAt (stands.le_size.trans_lt short)]
  refine ⟨by rw [place]; rfl, ?_, ?_, token, ?_⟩
  · rw [here]
    exact stands.le_size
  · rw [here]
    exact stands.isValid
  · rw [here]
    exact holds

/-- A fault lies in the file that was named, between two characters of the text,
at a token if there are tokens, and what it says of its place is so. -/
theorem parse_placed (options : Options) (source : String) (fault : Fault)
    (short : source.utf8ByteSize < 2 ^ 32) (failed : parse options source = .error fault) :
    fault.Placed options source := by
  rcases parse_error.1 failed with unread | ⟨tokens, done, refused⟩
  · obtain ⟨cause, offset, stopped, rfl⟩ := tokenize_error.1 unread
    refine .of_offset short (scan_trueAt stopped) rfl fun tokens tokenized => ?_
    cases unread.symm.trans tokenized
  · obtain ⟨own, token, member, start⟩ := parseTokens_inside refused
    rw [Stream.tokens_tokenize done] at member
    obtain ⟨offset, back, stands, place⟩ := tokenize_standsAt done member
    refine .of_offset short (.of_grammatical own ⟨back, stands⟩) (start.trans place)
      fun others tokenized => ?_
    cases done.symm.trans tokenized
    exact ⟨token, member, start⟩

/-- The text ends in a string inside the interpolation of another, behind a
character of two bytes. -/
theorem parse_placed_nested_string :
    "\"é$\x7b''a".utf8ByteSize < 2 ^ 32 ∧
      ∃ fault, parse { file := "a.nix" } "\"é$\x7b''a" = .error fault ∧
        fault.cause = .openString ∧ fault.position = ⟨5, "a.nix"⟩ ∧
        fault.Placed { file := "a.nix" } "\"é$\x7b''a" := by
  have short : "\"é$\x7b''a".utf8ByteSize < 2 ^ 32 := by decide
  have failed : parse { file := "a.nix" } "\"é$\x7b''a" =
      .error { cause := .openString, position := ⟨5, "a.nix"⟩ } := by
    cbv
  exact ⟨short, _, failed, rfl, rfl, parse_placed _ _ _ short failed⟩

end NixSyntax
