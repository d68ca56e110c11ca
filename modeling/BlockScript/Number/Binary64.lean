/-
  BlockScript.Number.Binary64

  Binary64 numbers by the three fields of their word, with exact rounding: a quotient of naturals,
  an integer or a decimal goes to the nearest number, and a tie to the even significand.
-/

namespace BlockScript

/-- A power of two. -/
def twoTo (n : Nat) : Nat :=
  Nat.pow 2 n

/-- A power of ten. -/
def tenTo (n : Nat) : Nat :=
  Nat.pow 10 n

/-- A binary64 number by the fields of its word; the fraction has 52 bits. -/
structure Binary64 where
  negative : Bool
  exponent : Fin 2048
  fraction : Fin 0x10000000000000
  deriving DecidableEq, Repr

namespace Binary64

/-! ## Parts -/

/-- Whether the word is not a number. -/
def isNaN (x : Binary64) : Bool :=
  x.exponent = 2047 && x.fraction ≠ 0

/-- Whether the word is one of the two infinities. -/
def isInfinite (x : Binary64) : Bool :=
  x.exponent = 2047 && x.fraction = 0

/-- Whether the word is a finite number. -/
def isFinite (x : Binary64) : Bool :=
  x.exponent ≠ 2047

/-- The significand `m` of the finite magnitude `m * 2 ^ scale`. -/
def significand (x : Binary64) : Nat :=
  if x.exponent = 0 then x.fraction else twoTo 52 + x.fraction

/-- The power of two of the finite magnitude `significand * 2 ^ scale`. -/
def scale (x : Binary64) : Int :=
  if x.exponent = 0 then -1074 else (x.exponent.val : Int) - 1075

/-- Whether the number is a zero of either sign. -/
def isZero (x : Binary64) : Bool :=
  x.exponent = 0 && x.fraction = 0

/-- The zero of a sign. -/
def zero (negative : Bool) : Binary64 :=
  ⟨negative, 0, 0⟩

/-- The infinity of a sign. -/
def infinity (negative : Bool) : Binary64 :=
  ⟨negative, 2047, 0⟩

/-- The quiet word that is not a number. -/
def nan : Binary64 :=
  ⟨false, 2047, Fin.ofNat _ (twoTo 51)⟩

/-- The number with the other sign. -/
def neg (x : Binary64) : Binary64 :=
  { x with negative := !x.negative }

/-! ## Rounding -/

/-- The natural nearest to `a / b`; of two the even one. -/
def roundedQuotient (a b : Nat) : Nat :=
  let q := a / b
  let twice := 2 * (a % b)
  if twice < b then q else if b < twice then q + 1 else q + q % 2

/-- `m * 2 ^ q` as a word, for a significand `m ≤ 2 ^ 53` on the grid of its magnitude. -/
def ofScaled (negative : Bool) (m : Nat) (q : Int) : Binary64 :=
  let carried := twoTo 53 ≤ m
  let m' := if carried then m / 2 else m
  let q' := if carried then q + 1 else q
  if m' < twoTo 52 then ⟨negative, 0, Fin.ofNat _ m'⟩
  else if 972 ≤ q' then infinity negative
  else ⟨negative, Fin.ofNat _ (q' + 1075).toNat, Fin.ofNat _ (m' - twoTo 52)⟩

/-- The number nearest to `num / den`, for `den` not zero. -/
def ofQuotient (negative : Bool) (num den : Nat) : Binary64 :=
  if num = 0 then zero negative
  else
    let estimate : Int := (num.log2 : Int) - den.log2
    let reached := den * twoTo estimate.toNat ≤ num * twoTo (-estimate).toNat
    let top := if reached then estimate else estimate - 1
    let q := max (top - 52) (-1074)
    ofScaled negative (roundedQuotient (num * twoTo (-q).toNat) (den * twoTo q.toNat)) q

/-- The number nearest to an integer; beyond the largest number an infinity. -/
def ofInt (n : Int) : Binary64 :=
  ofQuotient (n < 0) n.natAbs 1

/-- The number nearest to `digits * 10 ^ power`; beyond the largest number an infinity. -/
def ofDecimal (negative : Bool) (digits : Nat) (power : Int) : Binary64 :=
  if digits = 0 then zero negative
  else
    let length : Int := (Nat.toDigits 10 digits).length
    if 400 < length + power then infinity negative
    else if length + power < -400 then zero negative
    else ofQuotient negative (digits * tenTo power.toNat) (tenTo (-power).toNat)

/-! ## Arithmetic and order -/

/-- The finite number times `2 ^ (-unit)`, for a `unit` that is at most its scale. -/
def signedUnits (x : Binary64) (unit : Int) : Int :=
  let magnitude : Nat := x.significand * twoTo (x.scale - unit).toNat
  if x.negative then -(magnitude : Int) else magnitude

/-- The rounded sum. -/
def add (x y : Binary64) : Binary64 :=
  if x.isNaN || y.isNaN then nan
  else if x.isInfinite then if y.isInfinite && x.negative != y.negative then nan else x
  else if y.isInfinite then y
  else
    let unit := min x.scale y.scale
    let sum := x.signedUnits unit + y.signedUnits unit
    if sum = 0 then zero (x.negative && y.negative)
    else ofQuotient (sum < 0) (sum.natAbs * twoTo unit.toNat) (twoTo (-unit).toNat)

/-- Whether the number is at least zero. -/
def isNonneg (x : Binary64) : Bool :=
  !x.isNaN && (!x.negative || x.isZero)

/-- Whether the number is a finite integer. -/
def isInteger (x : Binary64) : Bool :=
  x.isFinite && x.significand % twoTo (-x.scale).toNat = 0

/-- The integer part of a finite number, toward zero. -/
def truncate (x : Binary64) : Int :=
  let magnitude : Nat := x.significand * twoTo x.scale.toNat / twoTo (-x.scale).toNat
  if x.negative then -(magnitude : Int) else magnitude

/-- The order of two numbers that are not NaN. -/
def lt (x y : Binary64) : Bool :=
  let key (z : Binary64) : Int :=
    let magnitude : Nat := z.exponent.val * twoTo 52 + z.fraction.val
    if z.negative then -(magnitude : Int) else magnitude
  !x.isNaN && !y.isNaN && key x < key y

/-- Whether the number equals an integer. -/
def eqInt (x : Binary64) (n : Int) : Bool :=
  x.isInteger && x.truncate = n

end Binary64

end BlockScript
