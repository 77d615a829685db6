/-
Module: NixSyntax.Position
Purpose: Positions in a named source text, counted in UTF-8 bytes.
Main exports: Position, Position.inFile, Position.nowhere, Span, utf8Length, defaultFile
-/

namespace NixSyntax

/-- The number of bytes that a text takes in UTF-8. -/
def utf8Length (text : List Char) : Nat :=
  text.foldr (fun c size => c.utf8Size + size) 0

/-- A byte offset into the source text with the given name.  Offsets are 32-bit
words, so they count modulo `2 ^ 32` in longer texts. -/
structure Position where
  offset : UInt32
  file : String
deriving Repr, Inhabited, DecidableEq

/-- The name of a source text that has none. -/
def defaultFile : String :=
  "<input>"

/-- The position that stands for "no place in any source". -/
def Position.nowhere : Position :=
  { offset := 0, file := "<null>" }

/-- A position without a file name is taken to be in `file`. -/
def Position.inFile (file : String) (position : Position) : Position :=
  if position.file.isEmpty then { position with file := file } else position

/-- The stretch of source from `start` up to, and without, `stop`. -/
structure Span where
  start : Position
  stop : Position
deriving Repr, Inhabited, DecidableEq

end NixSyntax
