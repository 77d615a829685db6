/-
Module: NixSyntax.Text.Blank
Purpose: The characters that separate tokens: the Unicode property White_Space.
Main exports: isBlank, trimRight
-/
import NixSyntax.Text.CodePoint

namespace NixSyntax

/-- The code points with the Unicode property `White_Space`: tab to carriage
return, space, next line, no-break space and the typographic spaces. -/
def blankRanges : List CodeRange :=
  [(0x9, 0xd), (0x20, 0x20), (0x85, 0x85), (0xa0, 0xa0), (0x1680, 0x1680),
   (0x2000, 0x200a), (0x2028, 0x2029), (0x202f, 0x202f), (0x205f, 0x205f), (0x3000, 0x3000)]

/-- Whether a character separates tokens. -/
def isBlank (c : Char) : Bool :=
  inRanges blankRanges c

/-- The text without the blank characters at its end. -/
def trimRight (text : List Char) : List Char :=
  (text.reverse.dropWhile isBlank).reverse

end NixSyntax
