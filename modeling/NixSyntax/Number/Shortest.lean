/-
Module: NixSyntax.Number.Shortest
Purpose: The shortest decimal text that reads back as a given binary64 number.
Main exports: Binary64.shortest, Binary64.text
-/
import NixSyntax.Number.Binary64

namespace NixSyntax

namespace Binary64

/-!
A finite number is the nearest one to every real in a certain interval around
it.  Among the decimals in that interval the printed one has the fewest
digits, and among those it is the nearest to the number itself.  To find it,
decimal grids of step `10 ^ k` are tried from coarse to fine.  On each grid
only the two points around the number need a test: if any point of the grid
lies in the interval, so does one of these two.

All lengths are measured in units of `2 ^ (-1076)`, a quarter of the smallest
positive number, in which the ends of every interval are whole.
-/

/-- The number itself, in units of `2 ^ (-1076)`. -/
def scaled (x : Binary64) : Nat :=
  4 * x.significand * Nat.pow 2 x.exponent

/-- The distance from the number down to the end of its interval.  Below a power
of two the numbers lie twice as dense, the smallest normal one excepted. -/
def gapBelow (x : Binary64) : Nat :=
  if x.significand = exponentBit ∧ 0 < x.exponent then Nat.pow 2 x.exponent
  else 2 * Nat.pow 2 x.exponent

/-- The distance from the number up to the end of its interval. -/
def gapAbove (x : Binary64) : Nat :=
  2 * Nat.pow 2 x.exponent

/-- Whether `point / unit` lies in the interval of the number.  The ends of the
interval are halfway between two numbers, and go to the even one. -/
def captures (x : Binary64) (point unit : Nat) : Bool :=
  let low := (x.scaled - x.gapBelow) * unit
  let high := (x.scaled + x.gapAbove) * unit
  if x.significand % 2 = 0 then low ≤ point && point ≤ high else low < point && point < high

/-- The best decimal `digits * 10 ^ k` for the number on the grid of step
`10 ^ k`.  Of two points in the interval the nearer one is taken, and the upper
one if they are equally near. -/
def onGrid (x : Binary64) (k : Int) : Option Nat :=
  let step := Nat.pow 2 1076 * Nat.pow 10 k.toNat
  let unit := Nat.pow 10 (-k).toNat
  let value := x.scaled * unit
  let digits := value / step
  let lower := x.captures (digits * step) unit
  let upper := x.captures ((digits + 1) * step) unit
  let nearerUpper := step ≤ 2 * (value % step)
  if upper && (!lower || nearerUpper) then some (digits + 1)
  else if lower then some digits
  else none

/-- Tries the grids of step `10 ^ k`, `10 ^ (k - 1)` and so on.  The last one is
fine enough for every number, as the rule in `shortest` says. -/
def searchGrids (x : Binary64) (k : Int) : Nat → Nat × Int
  | 0 => (0, k)
  | tries + 1 =>
    match x.onGrid k with
    | some digits => (digits, k)
    | none => x.searchGrids (k - 1) tries

/-- The number of decimal places in front of the decimal point, negative if
zeros follow the point. -/
def places (x : Binary64) : Int :=
  (Nat.toDigits 10 (x.scaled * Nat.pow 10 340 / Nat.pow 2 1076)).length - 340

/-- The shortest decimal `digits * 10 ^ k` of a number other than zero.
Seventeen digits tell any two binary64 numbers apart. -/
def shortest (x : Binary64) : Nat × Int :=
  x.searchGrids (x.places - 1) 17

/-- Writes a decimal whose digits stand for `d.ddd * 10 ^ power`.  From
`10 ^ (-4)` up to, and without, `10 ^ 16` it is written out with at least one
digit on both sides of the point, and otherwise with an exponent. -/
def layout (digits : List Char) (power : Int) : List Char :=
  if 0 ≤ power ∧ power < 16 then
    let whole := digits.take (power.toNat + 1)
    let fraction := digits.drop (power.toNat + 1)
    whole ++ List.replicate (power.toNat + 1 - whole.length) '0' ++ ['.'] ++
      (if fraction.isEmpty then ['0'] else fraction)
  else if -4 ≤ power ∧ power < 0 then
    ['0', '.'] ++ List.replicate ((-power).toNat - 1) '0' ++ digits
  else
    let fraction := digits.drop 1
    digits.take 1 ++ (if fraction.isEmpty then [] else '.' :: fraction) ++
      ['e'] ++ (toString power).toList

/-- The digits of a number without the zeros at its end. -/
def trimmedDigits (n : Nat) : List Char :=
  ((Nat.toDigits 10 n).reverse.dropWhile (· = '0')).reverse

/-- The number as text: the shortest decimal that reads back as the same number,
with a sign for negative numbers and for the negative zero. -/
def text (x : Binary64) : String :=
  let sign := if x.negative then ['-'] else []
  if x.magnitude = 0 then String.ofList (sign ++ ['0', '.', '0'])
  else
    let (digits, k) := x.shortest
    let power := k + (Nat.toDigits 10 digits).length - 1
    String.ofList (sign ++ layout (trimmedDigits digits) power)

/-- The sixteen hexadecimal digits of the word. -/
def hex (x : Binary64) : String :=
  let digits := Nat.toDigits 16 x.bits.toNat
  String.ofList (List.replicate (16 - digits.length) '0' ++ digits)

end Binary64

end NixSyntax
