/-
Module: NixSyntax.Number.Digits
Purpose: Runs of decimal digits and the integers they spell.
Main exports: digitsValue, splitSign, fitsInteger, readInteger
-/

namespace NixSyntax

/-- The number that a run of decimal digits spells. -/
def digitsValue (digits : List Char) : Nat :=
  digits.foldl (fun value digit => 10 * value + (digit.toNat - '0'.toNat)) 0

/-- Takes an optional sign off the front: whether it is a minus, and the
rest. -/
def splitSign : List Char → Bool × List Char
  | '-' :: rest => (true, rest)
  | '+' :: rest => (false, rest)
  | text => (false, text)

/-- Whether a number lies between the least and the greatest integer of 64 bits,
both included. -/
def fitsInteger (value : Int) : Bool :=
  -9223372036854775808 ≤ value && value ≤ 9223372036854775807

/-- Reads an integer of at most 64 bits: an optional sign, then digits only and
at least one.  Everything else, and every number out of range, is refused. -/
def readInteger (text : String) : Option Int :=
  let (negative, digits) := splitSign text.toList
  if digits.isEmpty || !digits.all Char.isDigit then none
  else
    let value : Int := if negative then -(digitsValue digits) else digitsValue digits
    if fitsInteger value then some value else none

end NixSyntax
