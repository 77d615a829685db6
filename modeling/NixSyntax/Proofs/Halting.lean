/-
Module: NixSyntax.Proofs.Halting
Purpose: The scan of a text as a run of steps, where it stops, and which strings are open there.
Main exports: Cursor.Step, Cursor.Opens, Cursor.Holds, Cursor.holds, Unread, scan_stops
-/
import NixSyntax.Proofs.Legible
import NixSyntax.Proofs.Lossless

namespace NixSyntax

/-!
A scan goes from place to place, one piece at a time.  It fails in one of two
ways: at a place where no piece can be read, or behind the whole text because a
string is still open.  The places of open strings are kept in the enclosures.
Each of them was put there where the string was opened, and has not been taken
off since: what closes other enclosures on the way leaves those below alone.
-/

open Relation (ReflTransGen)

/-! ## What is on top of the enclosures -/

/-- Behind a token no more enclosures are open than before, or one more, which
remembers its own place. -/
theorem Enclosure.next_cases (opened : List Enclosure) (offset : Nat) (kind : Kind) :
    next opened offset kind <:+ opened ∨
      ∃ top, next opened offset kind = top :: opened ∧ top.opener = kind ∧
        ∀ start, top.stringStart? = some start → start = offset := by
  cases kind with
  | curlyOpen => exact .inr ⟨.braces, rfl, rfl, nofun⟩
  | interpOpen => exact .inr ⟨.interpolation, rfl, rfl, nofun⟩
  | quoteOpen => exact .inr ⟨.quoted offset, rfl, rfl, fun _ same => (Option.some.inj same).symm⟩
  | indentOpen => exact .inr ⟨.indented offset, rfl, rfl, fun _ same => (Option.some.inj same).symm⟩
  | curlyClose | interpClose | quoteClose | indentClose => exact .inl (List.tail_suffix opened)
  | _ => exact .inl List.suffix_rfl

theorem readLexeme_opensString {opened : List Enclosure} {text : List Char} {lexeme : Lexeme}
    (read : readLexeme opened text = .ok lexeme) (string : lexeme.kind.opensString) :
    lexeme.kind.spelling.toList <+: text := by
  have taken := readLexeme_read opened text
  rw [read] at taken
  cases taken with
  | path | float | int => cases string
  | word =>
      have words : ∀ kind ∈ Kind.identifier :: Kind.reserved, ¬ kind.opensString := by decide
      exact absurd string (words _ (List.mem_cons.2 (ofWord_kind _)))
  | symbol found =>
      simp only [Lexeme.plain, closingKind] at string ⊢
      split at string
      · cases string
      · next other =>
          rw [if_neg other]
          exact (symbolAt_some found).2.2

/-- Strings are opened in code, by the quotes that stand there. -/
theorem readPiece_opensString {opened : List Enclosure} {text : List Char} {lexeme : Lexeme}
    (read : readPiece opened text = .ok (.lexeme lexeme)) (string : lexeme.kind.opensString) :
    InCode opened ∧ lexeme.kind.spelling.toList <+: text := by
  by_cases code : InCode opened
  · rw [readPiece_code code] at read
    exact ⟨code, readLexeme_opensString (readCode_lexeme read) string⟩
  · -- In a string there is text, an interpolation or its own end.
    obtain ⟨opener, close, -, -, closes, same⟩ := readPiece_string code text
    rw [same] at read
    rcases stringPiece_ok read with ⟨value, width, -, -, ⟨⟩⟩ | ⟨kind, delimiter, ⟨⟩⟩
    · cases string
    · rcases delimiter with rfl | rfl
      · cases string
      · cases opener <;> cases closes <;> cases string

/-! ## Steps -/

namespace Cursor

/-- Where the scan of a text starts. -/
def start (source : String) : Cursor :=
  ⟨[], 0, source.toList⟩

/-- The scanner reads one piece, and goes on behind it. -/
def Step (source target : Cursor) : Prop :=
  ∃ piece, readPiece source.opened source.text = .ok piece ∧
    source.text = piece.raw ++ target.text ∧
    target.opened = piece.opens source.opened source.offset ∧
    target.offset = source.offset + utf8Length piece.raw

variable {source opening last target : Cursor} {string : Enclosure} {outer : List Enclosure}

/-- What has been read takes as many bytes as the offset has grown. -/
theorem passed (reached : ReflTransGen Step source target) :
    ∃ front, source.text = front ++ target.text ∧
      target.offset = source.offset + utf8Length front := by
  induction reached with
  | refl => exact ⟨[], rfl, rfl⟩
  | tail _ step ih =>
      obtain ⟨front, split, place⟩ := ih
      obtain ⟨piece, -, shape, -, further⟩ := step
      refine ⟨front ++ piece.raw, ?_, ?_⟩
      · rw [split, shape, List.append_assoc]
      · rw [further, place, utf8Length_append, Nat.add_assoc]

/-! ## Open strings -/

/-- At this place stand the quotes that open the string. -/
structure Opens (opening : Cursor) (string : Enclosure) : Prop where
  code : InCode opening.opened
  quotes : string.opener.opensString ∧ string.opener.spelling.toList <+: opening.text
  origin : string.stringStart? = some opening.offset

/-- Behind a piece no more is open than in front of it, or one enclosure more.
If that is a string, it was opened where the piece stands. -/
theorem Step.opened_cases (step : last.Step target) :
    target.opened <:+ last.opened ∨
      ∃ top, target.opened = top :: last.opened ∧ (top.stringStart?.isSome → last.Opens top) := by
  obtain ⟨piece, read, -, opens, -⟩ := step
  rw [opens]
  cases piece with
  | trivium it => exact .inl List.suffix_rfl
  | lexeme lexeme =>
      refine (Enclosure.next_cases last.opened last.offset lexeme.kind).imp id ?_
      rintro ⟨top, more, opener, origin⟩
      refine ⟨top, more, fun isString => ?_⟩
      have string : top.opener.opensString := by rwa [Enclosure.opensString_opener]
      obtain ⟨code, spelled⟩ := readPiece_opensString read (opener ▸ string)
      obtain ⟨start, isStart⟩ := Option.isSome_iff_exists.1 isString
      exact ⟨code, ⟨string, opener ▸ spelled⟩, by rw [isStart, origin start isStart]⟩

/-- On the way from `source` to `last` the scanner has opened the string at the
place `opening`, and what was open behind the quotes is open since. -/
structure Holds (source opening : Cursor) (string : Enclosure) (last : Cursor) : Prop where
  reached : ReflTransGen Step source opening
  opens : opening.Opens string
  kept : ∃ inside, opening.Step inside ∧ inside.opened = string :: opening.opened ∧
    ReflTransGen (fun here there => here.Step there ∧ inside.opened <:+ there.opened) inside last

theorem Holds.step (holds : Holds source opening string last) (step : last.Step target)
    (still : string :: opening.opened <:+ target.opened) : Holds source opening string target := by
  obtain ⟨inside, opens, same, kept⟩ := holds.kept
  exact { holds with kept := ⟨inside, opens, same, kept.tail ⟨step, same ▸ still⟩⟩ }

/-- Every string among the enclosures has been opened on the way. -/
theorem holds (reached : ReflTransGen Step source last)
    (fresh : ∀ enclosure ∈ source.opened, enclosure.stringStart? = none)
    (among : string :: outer <:+ last.opened) (isString : string.stringStart?.isSome) :
    ∃ opening, opening.opened = outer ∧ Holds source opening string last := by
  induction reached generalizing string outer with
  | refl =>
      rw [fresh string (among.subset List.mem_cons_self)] at isString
      cases isString
  | @tail last target reached step ih =>
      have later : string :: outer <:+ last.opened →
          ∃ opening, opening.opened = outer ∧ Holds source opening string target := by
        intro before
        obtain ⟨opening, rfl, holds⟩ := ih before isString
        exact ⟨opening, rfl, holds.step step among⟩
      rcases step.opened_cases with fewer | ⟨top, more, opens⟩
      · exact later (among.trans fewer)
      rw [more, List.suffix_cons_iff] at among
      rcases among with same | before
      · -- The string is the one that this very step has opened.
        obtain ⟨rfl, rfl⟩ := List.cons.inj same
        exact ⟨last, rfl, reached, opens isString, target, step, more, .refl⟩
      · exact later before

end Cursor

/-! ## Pieces that cannot be read -/

/-- Why no piece can be read where these enclosures are open and this text is
ahead. -/
inductive Unread (opened : List Enclosure) (text : List Char) : Cause → Prop where
  /-- Literal text of the innermost string takes up all that is left. -/
  | string (inside : ¬ InCode opened) (endless : literalText? opened text = none) :
      Unread opened text .openString
  | comment (code : InCode opened) {rest : List Char} (starts : text = '/' :: '*' :: rest)
      (endless : ¬ ['*', '/'] <:+: rest) : Unread opened text .openComment
  | code (code : InCode opened) {shown : String}
      (failed : readCode opened text = .error (.unrecognised shown)) :
      Unread opened text (.unrecognised shown)

theorem blockCommentBody?_none {text : List Char} (missing : blockCommentBody? text = none) :
    ¬ ['*', '/'] <:+: text := by
  fun_induction blockCommentBody? text with
  | case1 => simp
  | case2 => cases missing
  | case3 c rest closed ih =>
      rw [List.infix_cons_iff]
      rintro (⟨tail, split⟩ | inside)
      · cases split
        exact closed _ rfl rfl
      · exact ih (Option.map_eq_none_iff.1 missing) inside

theorem stringPiece_error {literal : Option (List Char × Nat)} {close : Kind} {text : List Char}
    {cause : Cause} (failed : stringPiece literal close text = .error cause) :
    cause = .openString ∧ literal = none := by
  unfold stringPiece at failed
  split at failed
  · cases failed
    exact ⟨rfl, rfl⟩
  · split at failed <;> cases failed

theorem readCode_error {opened : List Enclosure} {text : List Char} {cause : Cause}
    (code : InCode opened) (failed : readCode opened text = .error cause) :
    Unread opened text cause := by
  have taken := readCode_read opened text
  rw [failed] at taken
  cases taken with
  | endless shape missing => exact .comment code shape (blockCommentBody?_none missing)
  | nothing solid noComment unread =>
      have lexed := readLexeme_read opened text
      rw [unread] at lexed
      cases lexed with
      | nothing => exact .code code failed

theorem readPiece_error {opened : List Enclosure} {text : List Char} {cause : Cause}
    (failed : readPiece opened text = .error cause) : Unread opened text cause := by
  by_cases code : InCode opened
  · exact readCode_error code (readPiece_code code text ▸ failed)
  · obtain ⟨opener, close, -, -, -, same⟩ := readPiece_string code text
    rw [same] at failed
    obtain ⟨rfl, endless⟩ := stringPiece_error failed
    exact .string code endless

/-- The string that is reported behind the text is one of those that are open. -/
theorem checkClosed_error {opened : List Enclosure} {cause : Cause} {place : Nat}
    (failed : checkClosed opened = .error (cause, place)) :
    cause = .openString ∧ ∃ string ∈ opened, string.stringStart? = some place := by
  unfold checkClosed at failed
  split at failed
  · next start last =>
      cases failed
      exact ⟨rfl, List.mem_filterMap.1 (List.mem_of_getLast? last)⟩
  · cases failed

/-! ## Where a scan stops -/

/-- A scan that fails has come to a place where no piece can be read, or to the
end of the text with a string open. -/
theorem scan_stops {opened : List Enclosure} {offset place : Nat} {text : List Char}
    {cause : Cause} (failed : scan opened offset text = .error (cause, place)) :
    ∃ last, ReflTransGen Cursor.Step ⟨opened, offset, text⟩ last ∧
      ((last.text = [] ∧ checkClosed last.opened = .error (cause, place)) ∨
        (last.text ≠ [] ∧ Unread last.opened last.text cause ∧
          place = faultOffset last.opened last.offset)) := by
  fun_induction scan opened offset text with
  | case1 opened offset => exact ⟨_, .refl, .inl ⟨rfl, failed⟩⟩
  | case2 opened offset c rest other read =>
      cases failed
      exact ⟨_, .refl, .inr ⟨List.cons_ne_nil c rest, readPiece_error read, rfl⟩⟩
  | case3 opened offset c rest piece read ih =>
      obtain ⟨behind, shape, complete⟩ := readPiece_starts (List.cons_ne_nil c rest) read
      rw [complete.drop_eq shape] at failed ih
      cases further : scan (piece.opens opened offset) (offset + utf8Length piece.raw) behind with
      | ok pieces =>
          rw [further] at failed
          cases failed
      | error fault =>
          rw [further] at failed
          cases failed
          obtain ⟨last, reached, stops⟩ := ih further
          exact ⟨last, .head ⟨piece, read, shape, rfl, rfl⟩ reached, stops⟩

end NixSyntax
