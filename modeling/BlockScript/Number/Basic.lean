/-
  BlockScript.Number.Basic

  The numbers of a workspace: integers of any size and binary64 numbers.
-/
import BlockScript.Number.Decimal

namespace BlockScript

/-- A number: an integer, or a number that was written with a fraction or an exponent. -/
inductive Number where
  | int (n : Int)
  | float (x : Binary64)
  deriving DecidableEq, Repr

namespace Number

/-- Whether the number is a zero. -/
def isZero : Number → Bool
  | int n => n = 0
  | float x => x.isZero

/-- Whether the number is NaN. -/
def isNaN : Number → Bool
  | int _ => false
  | float x => x.isNaN

/-- Whether the number is at least zero; a NaN is not. -/
def isNonneg : Number → Bool
  | int n => 0 ≤ n
  | float x => x.isNonneg

/-- Whether the number is below an integer. -/
def ltInt : Number → Int → Bool
  | int n, bound => n < bound
  | float x, bound => x.lt (Binary64.ofInt bound)

/-- The number with the other sign. -/
def neg : Number → Number
  | int n => int (-n)
  | float x => float x.neg

/-- The sum with an integer, or nothing if the integer is too large to be a binary64 number. -/
def addInt? : Number → Int → Option Number
  | int n, k => some (int (n + k))
  | float x, k =>
    let summand := Binary64.ofInt k
    if summand.isInfinite then none else some (float (x.add summand))

/-- Whether two numbers are the same, whatever their form. There is one NaN, and it is itself. -/
def sameValue : Number → Number → Bool
  | int a, int b => a = b
  | int a, float y => y.eqInt a
  | float x, int b => x.eqInt b
  | float x, float y => x = y || (x.isZero && y.isZero)

/-! ## Texts -/

/-- Shown numbers are positional from `0.0001` to below `10 ^ 16`; an exponent has two digits. -/
def shownLayout : Decimal.Layout :=
  ⟨-4, 16, 2⟩

/-- Script numerals are positional from `0.000001` to below `10 ^ 21`; an exponent is unpadded. -/
def scriptLayout : Decimal.Layout :=
  ⟨-6, 21, 1⟩

/-- The text of a number in messages. -/
def shown : Number → String
  | int n => toString n
  | float x =>
    if x.isNaN then "nan"
    else if x.isInfinite then (if x.negative then "-inf" else "inf")
    else x.render shownLayout

/-- The numeral of a number in a script. Integral values have no fraction, and no zero a sign. -/
def numeral : Number → String
  | int n => toString n
  | float x =>
    if x.isNaN then "NaN"
    else if x.isInfinite then (if x.negative then "-Infinity" else "Infinity")
    else if x.isInteger && (Decimal.shortest x).leadingPower < 21 then toString x.truncate
    else x.render scriptLayout

end Number

end BlockScript
