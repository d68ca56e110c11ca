/-
  BlockScript.Number.Decimal

  The text of a binary64 number: the fewest decimal digits that read back to it, laid out
  positionally or with an exponent as a layout says.
-/
import BlockScript.Number.Binary64

namespace BlockScript

/-- The decimal `digits * 10 ^ exponent`. -/
structure Decimal where
  digits : Nat
  exponent : Int
  deriving DecidableEq, Repr

namespace Decimal

/-! ## The digits -/

/-- How many decimal digits a natural has; zero has one. -/
def length (n : Nat) : Nat :=
  (Nat.toDigits 10 n).length

/-- Compares `a * 10 ^ i` with `n * 2 ^ j`. -/
def compareScaled (a : Nat) (i : Int) (n : Nat) (j : Int) : Ordering :=
  compare (a * tenTo i.toNat * twoTo (-j).toNat) (n * twoTo j.toNat * tenTo (-i).toNat)

/-- Whether a decimal is nearer to the magnitude of `x` than to any other number: it lies between
    the midpoints to the neighbours, and may be a midpoint if the significand is even. -/
def readsBackTo (d : Decimal) (x : Binary64) : Bool :=
  let m := x.significand
  let below := if x.fraction.val = 0 ∧ 1 < x.exponent.val then 4 * m - 1 else 4 * m - 2
  let lower := compareScaled d.digits d.exponent below (x.scale - 2)
  let upper := compareScaled d.digits d.exponent (4 * m + 2) (x.scale - 2)
  let isEven : Bool := m % 2 = 0
  (lower = .gt || (isEven && lower = .eq)) && (upper = .lt || (isEven && upper = .eq))

/-- The least `k` for which the positive `num / den` is below `10 ^ k`. -/
def magnitude (num den : Nat) : Int :=
  if den ≤ num then length (num / den) else 1 - length ((den - 1) / num)

/-- The decimal of a grid that reads back to `x`: of the two neighbours of `x` the nearer one, of
    two equally near ones the even one. -/
def onGrid? (x : Binary64) (num den : Nat) (exponent : Int) : Option Decimal :=
  let scaledNum := num * tenTo (-exponent).toNat
  let scaledDen := den * tenTo exponent.toNat
  let floor := scaledNum / scaledDen
  let below : Decimal := ⟨floor, exponent⟩
  let above : Decimal := ⟨floor + 1, exponent⟩
  match below.readsBackTo x, above.readsBackTo x with
  | true, true => some ⟨Binary64.roundedQuotient scaledNum scaledDen, exponent⟩
  | true, false => some below
  | false, true => some above
  | false, false => none

/-- Moves the zeros at the end of the digits into the exponent; the count bounds the moves. -/
def stripZeros : Nat → Decimal → Decimal
  | 0, d => d
  | fuel + 1, d =>
    if d.digits % 10 = 0 ∧ d.digits ≠ 0 then stripZeros fuel ⟨d.digits / 10, d.exponent + 1⟩ else d

/-- The decimal of fewest digits that reads back to the magnitude of a finite number: the first
    grid of one to seventeen digits with such a decimal, or else the exact value. -/
def shortest (x : Binary64) : Decimal :=
  let num := x.significand * twoTo x.scale.toNat
  let den := twoTo (-x.scale).toNat
  if num = 0 then ⟨0, 0⟩
  else
    let top := magnitude num den
    let grids := (List.range 17).map fun (n : Nat) => top - 1 - (n : Int)
    match grids.findSome? (onGrid? x num den) with
    | some d => stripZeros 17 d
    | none => ⟨num * Nat.pow 5 (-x.scale).toNat, min x.scale 0⟩

/-! ## The layout -/

/-- Where positional notation begins and ends and how many digits an exponent has at least. -/
structure Layout where
  /-- The least power of ten of a leading digit that is written positionally. -/
  positionalFrom : Int
  /-- The power of ten of a leading digit from which an exponent is written. -/
  positionalBelow : Int
  /-- The least number of digits of an exponent. -/
  exponentWidth : Nat

/-- A text of zeros. -/
def zeros (n : Nat) : String :=
  String.ofList (List.replicate n '0')

/-- The power of ten of the leading digit. -/
def leadingPower (d : Decimal) : Int :=
  d.exponent + (length d.digits : Int) - 1

/-- The digits with the point in its place, and a zero on either side of it that is empty. -/
def positional (d : Decimal) : String :=
  let digits := (Nat.toDigits 10 d.digits)
  let point := d.leadingPower + 1
  if point ≤ 0 then "0." ++ zeros (-point).toNat ++ String.ofList digits
  else if 0 ≤ d.exponent then String.ofList digits ++ zeros d.exponent.toNat ++ ".0"
  else String.ofList (digits.take point.toNat) ++ "." ++ String.ofList (digits.drop point.toNat)

/-- One digit, the others behind a point, and a signed exponent. -/
def scientific (exponentWidth : Nat) (d : Decimal) : String :=
  let digits := Nat.toDigits 10 d.digits
  let fraction := digits.drop 1
  let power := d.leadingPower
  let powerDigits := toString power.natAbs
  String.ofList (digits.take 1) ++ (if fraction.isEmpty then "" else "." ++ String.ofList fraction)
    ++ (if power < 0 then "e-" else "e+") ++ zeros (exponentWidth - powerDigits.length) ++ powerDigits

/-- The text of a decimal in a layout. -/
def render (layout : Layout) (d : Decimal) : String :=
  if layout.positionalFrom ≤ d.leadingPower ∧ d.leadingPower < layout.positionalBelow then
    d.positional
  else d.scientific layout.exponentWidth

end Decimal

namespace Binary64

/-- The text of a finite number in a layout: its sign and its shortest decimal. -/
def render (layout : Decimal.Layout) (x : Binary64) : String :=
  (if x.negative then "-" else "") ++ (Decimal.shortest x).render layout

end Binary64

end BlockScript
