/-
Module: NixSyntax.Text.Quoted
Purpose: Text shown in double quotes so that every character of it can be seen.
Main exports: quoted
-/
import NixSyntax.Text.Unprintable
import NixSyntax.Text.Extender
import NixSyntax.Text.Ignorable

namespace NixSyntax

/-!
Messages show the text they complain about in double quotes.  A reader has to
be able to tell which characters the text holds, so whatever would be invisible,
would merge with its neighbour or would end the quotes early is escaped.
-/

/-- Whether a character is shown by its code point: nothing would be seen of it,
or it would be drawn onto the character in front of it. -/
def isHidden (c : Char) : Bool :=
  isUnprintable c || isExtender c || isIgnorable c

/-- One character inside the quotes. -/
def quotedChar (c : Char) : String :=
  match c with
  | '\x00' => "\\0"
  | '\t' => "\\t"
  | '\r' => "\\r"
  | '\n' => "\\n"
  | '\\' => "\\\\"
  | '"' => "\\\""
  | _ =>
    if isHidden c then "\\u\x7b" ++ String.ofList (Nat.toDigits 16 c.toNat) ++ "\x7d"
    else c.toString

/-- The text in double quotes, with escapes for all that cannot be seen. -/
def quoted (text : String) : String :=
  "\"" ++ String.join (text.toList.map quotedChar) ++ "\""

end NixSyntax
