/-
Module: NixSyntax.Token.Scan
Purpose: Splitting a source text into blanks, comments and lexemes.
Main exports: Lexeme, Trivium, Piece, Piece.raw, Enclosure, readPiece, scan
-/
import NixSyntax.Comment
import NixSyntax.Fault
import NixSyntax.Text.Blank
import NixSyntax.Token.Recognise
import NixSyntax.Token.StringText

namespace NixSyntax

/-!
A source text is cut into pieces from front to back.  Which piece comes next
depends on the text ahead and on the innermost enclosure that is open: inside
a string literal text is read, and everywhere else code.  In code the classes
are tried in a fixed order and the first that fits wins, so `1/2` is a path
although a shorter number also starts there.
-/

/-! ### Pieces -/

/-- A token without its surroundings: what it is, what it stands for and how it
is written. -/
structure Lexeme where
  kind : Kind
  value : List Char
  raw : List Char
deriving Repr, Inhabited, DecidableEq

/-- A lexeme that stands for its own spelling. -/
def Lexeme.plain (kind : Kind) (raw : List Char) : Lexeme :=
  { kind, value := raw, raw }

/-- What may stand between two lexemes. -/
inductive Trivium where
  | blank (raw : List Char)
  | comment (comment : Comment)
deriving Repr, Inhabited, DecidableEq

/-- The source text of a trivium. -/
def Trivium.raw : Trivium → List Char
  | .blank raw => raw
  | .comment it => it.source.toList

/-- A piece of a source text. -/
inductive Piece where
  | trivium (trivium : Trivium)
  | lexeme (lexeme : Lexeme)
deriving Repr, Inhabited, DecidableEq

/-- The source text of a piece. -/
def Piece.raw : Piece → List Char
  | .trivium it => it.raw
  | .lexeme it => it.raw

/-! ### Enclosures -/

/-- What has been opened and not yet closed.  A string remembers the byte offset
at which it was opened. -/
inductive Enclosure where
  | braces
  | interpolation
  | quoted (start : Nat)
  | indented (start : Nat)
deriving Repr, Inhabited, DecidableEq

namespace Enclosure

/-- Where a string was opened. -/
def stringStart? : Enclosure → Option Nat
  | quoted start => some start
  | indented start => some start
  | braces => none
  | interpolation => none

/-- The enclosures, innermost first, that are open after a lexeme at the given
offset.  A closing brace without an opening one leaves nothing open: it is for
the parser to refuse. -/
def next (opened : List Enclosure) (offset : Nat) : Kind → List Enclosure
  | .curlyOpen => braces :: opened
  | .interpOpen => interpolation :: opened
  | .quoteOpen => quoted offset :: opened
  | .indentOpen => indented offset :: opened
  | .curlyClose | .interpClose | .quoteClose | .indentClose => opened.tail
  | _ => opened

end Enclosure

/-- The enclosures that are open after a piece at the given offset. -/
def Piece.opens (opened : List Enclosure) (offset : Nat) : Piece → List Enclosure
  | .trivium _ => opened
  | .lexeme it => Enclosure.next opened offset it.kind

/-! ### Reading one piece -/

/-- The kind of a symbol in code.  A closing brace ends the interpolation if
that is the innermost enclosure. -/
def closingKind (opened : List Enclosure) (kind : Kind) : Kind :=
  if kind = .curlyClose ∧ opened.head? = some .interpolation then .interpClose else kind

/-- Reads a lexeme in code that is neither blank nor comment. -/
def readLexeme (opened : List Enclosure) (text : List Char) : Except Cause Lexeme :=
  if 0 < pathWidth text then .ok (.plain .path (text.take (pathWidth text)))
  else if 0 < floatWidth text then .ok (.plain .float (text.take (floatWidth text)))
  else if 0 < intWidth text then .ok (.plain .int (text.take (intWidth text)))
  else if 0 < wordWidth text then
    let word := text.take (wordWidth text)
    .ok (.plain (.ofWord (String.ofList word)) word)
  else
    match Kind.symbolAt text with
    | some kind => .ok (.plain (closingKind opened kind) kind.spelling.toList)
    | none => .error (.unrecognised (String.ofList (text.take 1)))

/-- Reads a comment or a lexeme in code. -/
def readSolid (opened : List Enclosure) (text : List Char) : Except Cause Piece :=
  match text with
  | '#' :: rest =>
    .ok (.trivium (.comment { style := .line, text := String.ofList (lineCommentBody rest) }))
  | '/' :: '*' :: rest =>
    match blockCommentBody? rest with
    | some body => .ok (.trivium (.comment { style := .block, text := String.ofList body }))
    | none => .error .openComment
  | text => (readLexeme opened text).map .lexeme

/-- Reads a piece of code: a run of blanks, or what stands there instead. -/
def readCode (opened : List Enclosure) (text : List Char) : Except Cause Piece :=
  match text.takeWhile isBlank with
  | [] => readSolid opened text
  | blank => .ok (.trivium (.blank blank))

/-- The piece that literal text of a string makes: the text itself, or, if there
is none, the delimiter that stands there instead. -/
def stringPiece (literal : Option (List Char × Nat)) (close : Kind) (text : List Char) :
    Except Cause Piece :=
  match literal with
  | none => .error .openString
  | some (value, width) =>
    if 0 < width then .ok (.lexeme { kind := .fragment, value, raw := text.take width })
    else
      let kind := if text.head? = some '$' then .interpOpen else close
      .ok (.lexeme (.plain kind kind.spelling.toList))

/-- Reads the piece at the front of a text that has not ended. -/
def readPiece (opened : List Enclosure) (text : List Char) : Except Cause Piece :=
  match opened with
  | .quoted _ :: _ => stringPiece (quotedText text) .quoteClose text
  | .indented _ :: _ => stringPiece (indentedText text) .indentClose text
  | _ => readCode opened text

/-! ### Reading all pieces -/

/-- Where a fault of reading a piece lies.  A string that the text leaves open
is reported where it was opened, anything else where the piece starts. -/
def faultOffset (opened : List Enclosure) (offset : Nat) : Nat :=
  (opened.head?.bind Enclosure.stringStart?).getD offset

/-- Checks that no string is open where the text ends.  The outermost one is
reported. -/
def checkClosed (opened : List Enclosure) : Except (Cause × Nat) (List Piece) :=
  match (opened.filterMap Enclosure.stringStart?).getLast? with
  | some start => .error (.openString, start)
  | none => .ok []

/-- Cuts a text into pieces, given the enclosures that are open in front of it
and its byte offset.  A piece is never empty, so the rest of the text always
starts behind the first character. -/
def scan (opened : List Enclosure) (offset : Nat) :
    List Char → Except (Cause × Nat) (List Piece)
  | [] => checkClosed opened
  | c :: rest =>
    match readPiece opened (c :: rest) with
    | .error cause => .error (cause, faultOffset opened offset)
    | .ok piece =>
      (scan (piece.opens opened offset) (offset + utf8Length piece.raw)
        (rest.drop (piece.raw.length - 1))).map (piece :: ·)
termination_by text => text.length
decreasing_by simp only [List.length_drop, List.length_cons]; omega

end NixSyntax
