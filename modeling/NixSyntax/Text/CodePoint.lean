/-
Module: NixSyntax.Text.CodePoint
Purpose: Character classes given as ranges of code points.
Main exports: CodeRange, inRanges
-/

namespace NixSyntax

/-- A range of code points, both ends included. -/
abbrev CodeRange := Nat × Nat

/-- Whether the character lies in one of the ranges. -/
def inRanges (ranges : List CodeRange) (c : Char) : Bool :=
  ranges.any fun range => range.1 ≤ c.toNat && c.toNat ≤ range.2

end NixSyntax
