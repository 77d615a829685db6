/-
Module: NixSyntax.Number.Binary64
Purpose: Finite binary64 numbers as words, with exact rounding.
Main exports: Binary64, Binary64.equal, Binary64.roundRatio
-/

namespace NixSyntax

/-!
A binary64 number is kept as its 64-bit word: a sign bit, eleven exponent bits
and fifty-two fraction bits.  All arithmetic on it is done in exact natural
numbers, so each rule here can be reasoned about without a model of a
processor.
-/

/-- A binary64 number by its bits. -/
structure Binary64 where
  bits : UInt64
deriving Repr, Inhabited, DecidableEq

namespace Binary64

/-- The value of the sign bit in a word. -/
def signBit : Nat :=
  Nat.pow 2 63

/-- The value of the lowest exponent bit in a word, which is also that of the
leading bit of a normal significand. -/
def exponentBit : Nat :=
  Nat.pow 2 52

/-- Whether the sign bit is set. -/
def negative (x : Binary64) : Bool :=
  signBit ≤ x.bits.toNat

/-- The word without its sign bit. -/
def magnitude (x : Binary64) : Nat :=
  x.bits.toNat % signBit

/-- Equality of numbers: the words are equal, or both are a zero. -/
def equal (x y : Binary64) : Bool :=
  x.bits == y.bits || (x.magnitude == 0 && y.magnitude == 0)

/-- The exponent above the least one, which is that of the subnormal numbers and
of the smallest normal ones. -/
def exponent (x : Binary64) : Nat :=
  x.magnitude / exponentBit - 1

/-- The significand.  A finite number has the magnitude
`significand * 2 ^ (exponent - 1074)`. -/
def significand (x : Binary64) : Nat :=
  let fraction := x.magnitude % exponentBit
  if x.magnitude < exponentBit then fraction else fraction + exponentBit

/-- The number with the given sign and magnitude word. -/
def ofMagnitude (negative : Bool) (magnitude : Nat) : Binary64 :=
  { bits := (if negative then magnitude + signBit else magnitude).toUInt64 }

/-- A quotient of natural numbers to the nearest natural number, a half to the
even neighbour. -/
def roundDiv (num den : Nat) : Nat :=
  let quotient := num / den
  let double := 2 * (num % den)
  if double > den || (double == den && quotient % 2 == 1) then quotient + 1 else quotient

/-- The magnitude word nearest to `num / den`, a half to the even one.

The spacing of the numbers around the quotient is `2 ^ (step - 1074)`, where
`step` is the least one that keeps the significand below `2 ^ 53`.  It is one of
two candidates, because the sizes of `num` and `den` give the quotient up to a
factor of two.  Adding the significand to the bits of `step` gives the word in
all cases: the leading bit of a normal significand raises the exponent by one,
and a significand that is rounded up to `2 ^ 53` raises it once more. -/
def roundMagnitude (num den : Nat) : Nat :=
  let scaled := num * Nat.pow 2 1074
  let low := num.log2 + 1074 - den.log2 - 53
  let step := if scaled / (den * Nat.pow 2 low) < 2 * exponentBit then low else low + 1
  step * exponentBit + roundDiv scaled (den * Nat.pow 2 step)

/-- The finite number nearest to `num / den` with the given sign, or nothing if
that would be an infinity. -/
def roundRatio (negative : Bool) (num den : Nat) : Option Binary64 :=
  if num = 0 then some (ofMagnitude negative 0)
  else
    let magnitude := roundMagnitude num den
    if magnitude < 0x7ff * exponentBit then some (ofMagnitude negative magnitude) else none

end Binary64

end NixSyntax
