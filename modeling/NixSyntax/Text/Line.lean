/-
Module: NixSyntax.Text.Line
Purpose: The line of a text on which a byte offset lies.
Main exports: splitLines, Place, Place.ofOffset
-/
import NixSyntax.Position

namespace NixSyntax

/-- The lines of a text, each with the line feed that ends it.  Only the last
line can lack one, and no line is empty, so the lines joined give the text
back. -/
def splitLines : List Char → List (List Char)
  | [] => []
  | c :: rest =>
    if c = '\n' then [c] :: splitLines rest
    else
      match splitLines rest with
      | [] => [[c]]
      | line :: lines => (c :: line) :: lines

/-- A place in a text: the number of its line counted from 1, that line with its
line feed, and the byte column in it. -/
structure Place where
  line : Nat
  text : List Char
  column : Nat
deriving Repr, Inhabited, DecidableEq

/-- Walks down the lines, the first of which has the given number, to the byte
that is `offset` bytes further on.  `fallback` is the answer when the lines end
before. -/
def Place.search (number offset : Nat) (fallback : Place) : List (List Char) → Place
  | [] => fallback
  | line :: lines =>
    if offset < utf8Length line then
      { line := number, text := line, column := offset }
    else
      Place.search (number + 1) (offset - utf8Length line)
        { line := number, text := line, column := utf8Length (line.takeWhile (· ≠ '\n')) } lines

/-- The place of a byte offset.  An offset past the end of the text is taken to
the end of the last line, in front of its line feed. -/
def Place.ofOffset (source : String) (offset : Nat) : Place :=
  Place.search 1 offset { line := 1, text := [], column := 0 } (splitLines source.toList)

end NixSyntax
