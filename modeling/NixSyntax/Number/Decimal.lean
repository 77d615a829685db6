/-
Module: NixSyntax.Number.Decimal
Purpose: Reading decimal fractions as binary64 numbers.
Main exports: Decimal, Decimal.read, Decimal.toBinary64, readFloat
-/
import NixSyntax.Number.Digits
import NixSyntax.Number.Binary64

namespace NixSyntax

/-- The decimal fraction `± significand * 10 ^ exponent`. -/
structure Decimal where
  negative : Bool
  significand : Nat
  exponent : Int
deriving Repr, Inhabited, DecidableEq

namespace Decimal

/-- Reads an exponent part: nothing at all, or `e` or `E`, an optional sign and
at least one digit, up to the end of the text. -/
def readExponent : List Char → Option Int
  | [] => some 0
  | mark :: rest =>
    let (negative, digits) := splitSign rest
    if (mark = 'e' || mark = 'E') && !digits.isEmpty && digits.all Char.isDigit then
      some (if negative then -(digitsValue digits) else digitsValue digits)
    else none

/-- Takes the digits after a decimal point off the front, if there is a
point. -/
def splitFraction : List Char → List Char × List Char
  | '.' :: rest => (rest.takeWhile Char.isDigit, rest.dropWhile Char.isDigit)
  | text => ([], text)

/-- Reads an optional sign, digits with at most one decimal point among or
around them, and an optional exponent.  One digit beside the point is enough. -/
def read (text : String) : Option Decimal :=
  let (negative, text) := splitSign text.toList
  let whole := text.takeWhile Char.isDigit
  let (fraction, text) := splitFraction (text.dropWhile Char.isDigit)
  if whole.isEmpty && fraction.isEmpty then none
  else
    (readExponent text).map fun exponent =>
      { negative, significand := digitsValue (whole ++ fraction)
        exponent := exponent - fraction.length }

/-- The nearest binary64 number, a half to the even one, or nothing if the
number is too large for a finite one.  A number of `10 ^ 310` or more is too
large, and one below `10 ^ (-330)` is nearest to zero, so powers of ten beyond
those bounds are never computed. -/
def toBinary64 (decimal : Decimal) : Option Binary64 :=
  let top := decimal.exponent + (Nat.toDigits 10 decimal.significand).length
  if decimal.significand = 0 ∨ top < -330 then
    Binary64.roundRatio decimal.negative 0 1
  else if 310 < top then none
  else
    Binary64.roundRatio decimal.negative
      (decimal.significand * Nat.pow 10 decimal.exponent.toNat)
      (Nat.pow 10 (-decimal.exponent).toNat)

end Decimal

/-- Reads a decimal fraction as the nearest finite binary64 number. -/
def readFloat (text : String) : Option Binary64 :=
  (Decimal.read text).bind Decimal.toBinary64

end NixSyntax
