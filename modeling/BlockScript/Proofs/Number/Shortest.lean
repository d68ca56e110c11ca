/-
  BlockScript.Proofs.Number.Shortest

  The decimal that a binary64 number is written with. It reads back to the number; every other decimal
  that does has more digits, or as many and is not nearer.

  The grids of one to seventeen digits are tried one after the other. On each it is enough to look at
  the two neighbours of the number: a decimal of so many digits that reads back is on the far side of
  one of them. The last grid is finer than the interval of the number, so that it has a point in it.
-/
import BlockScript.Proofs.Number.Interval
import Mathlib.Data.List.Basic

namespace BlockScript

namespace Decimal

/-! ## Digits -/

theorem length_pos (n : Nat) : 0 < length n :=
  List.length_pos_iff.mpr Nat.toDigits_ne_nil

theorem length_le_iff {n k : Nat} (hk : 0 < k) : length n ≤ k ↔ n < 10 ^ k :=
  Nat.length_toDigits_le_iff (by decide) hk

theorem lt_pow_length (n : Nat) : n < 10 ^ length n :=
  (length_le_iff (length_pos n)).mp (Nat.le_refl _)

theorem pow_le_of_length {n k : Nat} (hn : n ≠ 0) (hk : length n = k + 1) : 10 ^ k ≤ n := by
  by_contra hlt
  rcases Nat.eq_zero_or_pos k with rfl | hpos
  · exact hn (Nat.lt_one_iff.mp (Nat.not_le.mp hlt))
  · have := (length_le_iff hpos).mpr (Nat.not_le.mp hlt)
    omega

/-- The powers of ten around a decimal. -/
theorem value_bounds {d : Decimal} (h : d.digits ≠ 0) :
    (10 : ℚ) ^ d.leadingPower ≤ d.value ∧ d.value < 10 ^ (d.leadingPower + 1) := by
  obtain ⟨k, hk⟩ := Nat.exists_eq_succ_of_ne_zero (length_pos d.digits).ne'
  have hleading : d.leadingPower = k + d.exponent := by
    rw [leadingPower, hk]
    push_cast
    ring
  have hlow : (10 ^ k : ℚ) ≤ d.digits := by exact_mod_cast pow_le_of_length h hk
  have hhigh : (d.digits : ℚ) < 10 ^ (k + 1) := by exact_mod_cast hk ▸ lt_pow_length d.digits
  constructor
  · rw [hleading, zpow_add₀ (by norm_num), zpow_natCast, value]
    gcongr
  · rw [hleading, value, show (k : ℤ) + d.exponent + 1 = (k + 1 : ℕ) + d.exponent by push_cast; ring,
      zpow_add₀ (by norm_num), zpow_natCast]
    gcongr

/-- The least power of ten above a quotient. -/
theorem magnitude_spec {num den : Nat} (hnum : 0 < num) (hden : 0 < den) :
    (10 : ℚ) ^ (magnitude num den - 1) ≤ num / den ∧ (num / den : ℚ) < 10 ^ magnitude num den := by
  have hden' : (0 : ℚ) < den := Nat.cast_pos.mpr hden
  rw [magnitude]
  split
  next hle =>
    -- The power is that of the integer part.
    have hpart : num / den ≠ 0 := (Nat.div_pos hle hden).ne'
    obtain ⟨k, hk⟩ := Nat.exists_eq_succ_of_ne_zero (length_pos (num / den)).ne'
    have hlow : 10 ^ k * den ≤ num := (Nat.le_div_iff_mul_le hden).mp (pow_le_of_length hpart hk)
    have hpow := lt_pow_length (num / den)
    rw [hk] at hpow
    have hhigh : num < 10 ^ (k + 1) * den := (Nat.div_lt_iff_lt_mul hden).mp hpow
    rw [hk, Nat.cast_succ, add_sub_cancel_right, zpow_natCast, ← Nat.cast_succ, zpow_natCast,
      le_div_iff₀ hden', div_lt_iff₀ hden']
    exact ⟨by exact_mod_cast hlow, by exact_mod_cast hhigh⟩
  next hlt =>
    -- The power is that of the integer part of what is just less than the inverse.
    have hpart : (den - 1) / num ≠ 0 := (Nat.div_pos (by omega) hnum).ne'
    obtain ⟨k, hk⟩ := Nat.exists_eq_succ_of_ne_zero (length_pos ((den - 1) / num)).ne'
    have hlow : 10 ^ k * num ≤ den - 1 := (Nat.le_div_iff_mul_le hnum).mp (pow_le_of_length hpart hk)
    have hpow := lt_pow_length ((den - 1) / num)
    rw [hk] at hpow
    have hhigh : den - 1 < 10 ^ (k + 1) * num := (Nat.div_lt_iff_lt_mul hnum).mp hpow
    have hdenLow : (10 ^ k * num : ℚ) < den := by exact_mod_cast (by omega : 10 ^ k * num < den)
    have hdenHigh : (den : ℚ) ≤ 10 ^ (k + 1) * num := by
      exact_mod_cast (by omega : den ≤ 10 ^ (k + 1) * num)
    have hleft : (1 - ((k + 1 : ℕ) : ℤ) - 1 : ℤ) = -((k + 1 : ℕ) : ℤ) := by ring
    have hright : (1 - ((k + 1 : ℕ) : ℤ) : ℤ) = -(k : ℤ) := by push_cast; ring
    rw [hk, hleft, hright, zpow_neg, zpow_neg, zpow_natCast, zpow_natCast, le_div_iff₀ hden',
      div_lt_iff₀ hden', inv_mul_le_iff₀ (by positivity), lt_inv_mul_iff₀ (by positivity)]
    exact ⟨hdenHigh, hdenLow⟩

end Decimal

namespace Binary64

open Decimal

variable {x : Binary64}

/-! ## Grids -/

/-- The integer nearest to a quotient is one of its two neighbours, the nearer one. -/
theorem roundedQuotient_cases (a b : Nat) :
    roundedQuotient a b = a / b ∧ 2 * (a % b) ≤ b ∨
      roundedQuotient a b = a / b + 1 ∧ b ≤ 2 * (a % b) := by
  simp only [roundedQuotient]
  split
  · omega
  · split
    · omega
    · have : a / b % 2 < 2 := Nat.mod_lt _ (by decide)
      omega

/-- How many steps of a grid are below a quotient. -/
def steps (num den : Nat) (exponent : Int) : Nat :=
  num * tenTo (-exponent).toNat / (den * tenTo exponent.toNat)

section

variable {num den : Nat} {exponent : Int} {p : ℚ}

/-- A quotient is between two neighbours on a grid, and is rounded to the nearer one. -/
theorem steps_spec (num : Nat) (hden : 0 < den) (exponent : Int) :
    let below := (⟨steps num den exponent, exponent⟩ : Decimal).value
    let above := (⟨steps num den exponent + 1, exponent⟩ : Decimal).value
    let nearest := roundedQuotient (num * tenTo (-exponent).toNat) (den * tenTo exponent.toNat)
    below ≤ num / den ∧ num / den < above ∧
      (nearest = steps num den exponent ∧ num / den - below ≤ above - num / den ∨
        nearest = steps num den exponent + 1 ∧ above - num / den ≤ num / den - below) := by
  intro below above nearest
  have hscaled : (num / den : ℚ) = (num * tenTo (-exponent).toNat : Nat) /
      (den * tenTo exponent.toNat : Nat) * 10 ^ exponent :=
    quotient_eq_steps (by decide) num den exponent
  have hb : 0 < den * tenTo exponent.toNat := Nat.mul_pos hden (tenTo_pos _)
  have hrounded := roundedQuotient_cases (num * tenTo (-exponent).toNat) (den * tenTo exponent.toNat)
  have hmod := Nat.mod_lt (num * tenTo (-exponent).toNat) hb
  have hdivision := Nat.div_add_mod (num * tenTo (-exponent).toNat) (den * tenTo exponent.toNat)
  change _ ∧ _ ∧ (roundedQuotient _ _ = steps num den exponent ∧ _ ∨
    roundedQuotient _ _ = steps num den exponent + 1 ∧ _)
  simp only [below, above, value, steps, hscaled]
  generalize num * tenTo (-exponent).toNat = a at *
  generalize den * tenTo exponent.toNat = b at *
  -- The part of a step that is left.
  have hb' : (0 : ℚ) < b := Nat.cast_pos.mpr hb
  have hstep : (0 : ℚ) < 10 ^ exponent := by positivity
  have hquotient : (a / b : ℚ) = (a / b : Nat) + (a % b : Nat) / b := by
    have hcast : (b * (a / b : Nat) + (a % b : Nat) : ℚ) = a := by exact_mod_cast hdivision
    rw [← hcast]
    field_simp
  have hpart : (0 : ℚ) ≤ (a % b : Nat) / b := by positivity
  have hpart' : ((a % b : Nat) / b : ℚ) < 1 := by
    rw [div_lt_one hb']
    exact_mod_cast hmod
  rw [hquotient]
  push_cast
  refine ⟨by gcongr; linarith, by gcongr, ?_⟩
  rcases hrounded with ⟨hnearest, hless⟩ | ⟨hnearest, hmore⟩
  · have hhalf : 2 * ((a % b : Nat) / b : ℚ) ≤ 1 := by
      rw [← mul_div_assoc, div_le_one hb']
      exact_mod_cast hless
    refine .inl ⟨hnearest, ?_⟩
    rw [← sub_mul, ← sub_mul]
    exact mul_le_mul_of_nonneg_right (by linarith) hstep.le
  · have hhalf : 1 ≤ 2 * ((a % b : Nat) / b : ℚ) := by
      rw [← mul_div_assoc, one_le_div hb']
      exact_mod_cast hmore
    refine .inr ⟨hnearest, ?_⟩
    rw [← sub_mul, ← sub_mul]
    exact mul_le_mul_of_nonneg_right (by linarith) hstep.le

theorem onGrid?_eq (x : Binary64) (num den : Nat) (exponent : Int) :
    onGrid? x num den exponent =
      match (⟨steps num den exponent, exponent⟩ : Decimal).readsBackTo x,
        (⟨steps num den exponent + 1, exponent⟩ : Decimal).readsBackTo x with
      | true, true => some (⟨roundedQuotient (num * tenTo (-exponent).toNat)
          (den * tenTo exponent.toNat), exponent⟩ : Decimal)
      | true, false => some (⟨steps num den exponent, exponent⟩ : Decimal)
      | false, true => some (⟨steps num den exponent + 1, exponent⟩ : Decimal)
      | false, false => none :=
  rfl

/-- A decimal of a grid that is found reads back, and is one of the two neighbours. -/
theorem of_onGrid? {d : Decimal} (h : onGrid? x num den exponent = some d) :
    x.Covers d.value ∧ d.exponent = exponent ∧
      (d.digits = steps num den exponent ∨ d.digits = steps num den exponent + 1) := by
  rw [onGrid?_eq] at h
  split at h
  next hbelow habove =>
    obtain rfl := Option.some.inj h
    rw [readsBackTo_iff] at hbelow habove
    rcases roundedQuotient_cases (num * tenTo (-exponent).toNat) (den * tenTo exponent.toNat) with
      ⟨hdigits, -⟩ | ⟨hdigits, -⟩
    · rw [hdigits]
      exact ⟨hbelow, rfl, .inl rfl⟩
    · rw [hdigits]
      exact ⟨habove, rfl, .inr rfl⟩
  next hbelow _ =>
    obtain rfl := Option.some.inj h
    exact ⟨(readsBackTo_iff _ _).mp hbelow, rfl, .inl rfl⟩
  next _ habove =>
    obtain rfl := Option.some.inj h
    exact ⟨(readsBackTo_iff _ _).mp habove, rfl, .inr rfl⟩
  next => cases h

/-- If a magnitude on the far side of a neighbour is covered, the grid has a decimal that reads back, and
    it is as near. -/
theorem onGrid?_of_covers (hden : 0 < den) (hr : (num / den : ℚ) = x.magnitude)
    (hx : x.significand ≠ 0) (hp : x.Covers p)
    (hside : p ≤ (⟨steps num den exponent, exponent⟩ : Decimal).value ∨
      (⟨steps num den exponent + 1, exponent⟩ : Decimal).value ≤ p) :
    ∃ d, onGrid? x num den exponent = some d ∧ |d.value - x.magnitude| ≤ |p - x.magnitude| := by
  have hself := covers_magnitude hx
  have hspec := steps_spec num hden exponent
  simp only [hr] at hspec
  obtain ⟨hbelow, habove, hnearest⟩ := hspec
  rw [onGrid?_eq]
  rcases hside with hle | hle
  · have hread := (readsBackTo_iff _ _).mpr (hp.between hself hle hbelow)
    have hdistance : |p - x.magnitude| = x.magnitude - p := by
      rw [abs_sub_comm, abs_of_nonneg (by linarith)]
    rw [hread, hdistance]
    cases (⟨steps num den exponent + 1, exponent⟩ : Decimal).readsBackTo x with
    | false =>
      refine ⟨_, rfl, ?_⟩
      rw [abs_sub_comm, abs_of_nonneg (by linarith)]
      linarith
    | true =>
      refine ⟨_, rfl, ?_⟩
      rcases hnearest with ⟨heq, hless⟩ | ⟨heq, hmore⟩
      · rw [heq, abs_sub_comm, abs_of_nonneg (by linarith)]
        linarith
      · rw [heq, abs_of_nonneg (by linarith)]
        linarith
  · have hread := (readsBackTo_iff _ _).mpr (hself.between hp habove.le hle)
    have hdistance : |p - x.magnitude| = p - x.magnitude := abs_of_nonneg (by linarith)
    rw [hread, hdistance]
    cases (⟨steps num den exponent, exponent⟩ : Decimal).readsBackTo x with
    | false =>
      refine ⟨_, rfl, ?_⟩
      rw [abs_of_nonneg (by linarith)]
      linarith
    | true =>
      refine ⟨_, rfl, ?_⟩
      rcases hnearest with ⟨heq, hless⟩ | ⟨heq, hmore⟩
      · rw [heq, abs_sub_comm, abs_of_nonneg (by linarith)]
        linarith
      · rw [heq, abs_of_nonneg (by linarith)]
        linarith

theorem zpow_add_exponent (k : Nat) (exponent : Int) :
    (10 : ℚ) ^ (k + exponent) = (10 ^ k : Nat) * 10 ^ exponent := by
  rw [zpow_add₀ (by norm_num), zpow_natCast]
  push_cast
  rfl

/-- On the grid of so many digits a quotient is reached in steps of so many digits. -/
theorem steps_lt (exponent : Int) (hden : 0 < den) {top : Int} (hhigh : (num / den : ℚ) < 10 ^ top)
    {k : Nat} (hexponent : exponent = top - 1 - k) : steps num den exponent < 10 ^ (k + 1) := by
  obtain ⟨hbelow, -, -⟩ := steps_spec num hden exponent
  have hstep : (0 : ℚ) < 10 ^ exponent := by positivity
  have hpow := hbelow.trans_lt hhigh
  rw [show top = (k + 1 : Nat) + exponent by push_cast; omega, zpow_add_exponent, Decimal.value,
    mul_lt_mul_iff_left₀ hstep, Nat.cast_lt] at hpow
  exact hpow

/-- On the grid of so many digits, a decimal with as many is on the far side of a neighbour. -/
theorem value_far_of_length (exponent : Int) (hden : 0 < den) {top : Int}
    (hlow : (10 : ℚ) ^ (top - 1) ≤ num / den) (hhigh : (num / den : ℚ) < 10 ^ top) {c : Decimal}
    (hc : c.digits ≠ 0) {k : Nat} (hk : length c.digits = k + 1) (hexponent : exponent = top - 1 - k) :
    c.value ≤ (⟨steps num den exponent, exponent⟩ : Decimal).value ∨
      (⟨steps num den exponent + 1, exponent⟩ : Decimal).value ≤ c.value := by
  obtain ⟨-, habove, -⟩ := steps_spec num hden exponent
  obtain ⟨hleast, hmost⟩ := value_bounds hc
  have hleading : c.leadingPower = c.exponent + k := by
    rw [leadingPower, hk]
    push_cast
    ring
  have hstep : (0 : ℚ) < 10 ^ exponent := by positivity
  rcases lt_trichotomy c.exponent exponent with hlt | heq | hlt
  · -- The decimal is below the power of ten that is next below the quotient.
    left
    have hsteps : 10 ^ k ≤ steps num den exponent := by
      have hpow := hlow.trans_lt habove
      rw [show top - 1 = k + exponent by omega, zpow_add_exponent, value,
        mul_lt_mul_iff_left₀ hstep, Nat.cast_lt] at hpow
      exact Nat.lt_succ_iff.mp hpow
    calc c.value
      _ ≤ 10 ^ (c.leadingPower + 1) := hmost.le
      _ ≤ 10 ^ (k + exponent) := zpow_le_zpow_right₀ (by norm_num) (by omega)
      _ ≤ (⟨steps num den exponent, exponent⟩ : Decimal).value := by
        rw [zpow_add_exponent, value]
        gcongr
  · -- The decimal is on the grid.
    rw [value, value, value, heq, mul_le_mul_iff_left₀ hstep, mul_le_mul_iff_left₀ hstep, Nat.cast_le,
      Nat.cast_le]
    exact (Nat.lt_or_ge c.digits (steps num den exponent + 1)).imp Nat.lt_succ_iff.mp id
  · -- The decimal is at least the power of ten that is next above the quotient.
    right
    have hsteps := steps_lt exponent hden hhigh hexponent
    calc (⟨steps num den exponent + 1, exponent⟩ : Decimal).value
      _ ≤ 10 ^ ((k + 1 : Nat) + exponent) := by
        rw [zpow_add_exponent, value]
        gcongr
        exact hsteps
      _ ≤ 10 ^ c.leadingPower := zpow_le_zpow_right₀ (by norm_num) (by push_cast; omega)
      _ ≤ c.value := hleast

/-- A step of the grid of seventeen digits is shorter than the interval of the number. -/
theorem step_lt_interval {top : Int} (hlow : (10 : ℚ) ^ (top - 1) ≤ x.magnitude) :
    (10 : ℚ) ^ (top - 17) < x.upper - x.lower := by
  have hpow : (0 : ℚ) < 2 ^ (x.scale - 2) := by positivity
  have hquarters : 4 * x.significand < 10 ^ 16 * (4 * x.significand + 2 - x.lowerQuarters) := by
    have hlt := x.significand_lt
    have hle := x.lowerQuarters_le
    rw [lowerQuarters] at hle ⊢
    split
    next hboundary =>
      -- Here the significand is a power of two, since the fraction is zero.
      have hsignificand : x.significand = 4503599627370496 := by
        have hne : x.exponent ≠ 0 := by
          intro hzero
          rw [hzero] at hboundary
          exact absurd hboundary.2 (by decide)
        rw [significand, if_neg hne, hboundary.1]
        rfl
      omega
    next => omega
  have hcast :
      (4 * x.significand : ℚ) < 10 ^ 16 * ((4 * x.significand + 2 : Nat) - x.lowerQuarters) := by
    have hle := x.lowerQuarters_le
    rw [← Nat.cast_sub (by omega)]
    exact_mod_cast hquarters
  have hwidth : x.upper - x.lower =
      ((4 * x.significand + 2 : Nat) - x.lowerQuarters : ℚ) * 2 ^ (x.scale - 2) := by
    rw [upper, lower, ← sub_mul]
  have hten : (10 : ℚ) ^ (top - 17) * 10 ^ 16 = 10 ^ (top - 1) := by
    rw [← zpow_natCast, ← zpow_add₀ (by norm_num)]
    congr 1
    push_cast
    ring
  have hbound : (10 : ℚ) ^ (top - 17) * 10 ^ 16 < 10 ^ 16 * (x.upper - x.lower) := by
    calc (10 : ℚ) ^ (top - 17) * 10 ^ 16
      _ ≤ x.magnitude := hten.trans_le hlow
      _ = 4 * x.significand * 2 ^ (x.scale - 2) := by
        rw [magnitude_eq_quarters]
        push_cast
        rfl
      _ < 10 ^ 16 * ((4 * x.significand + 2 : Nat) - x.lowerQuarters) * 2 ^ (x.scale - 2) := by gcongr
      _ = 10 ^ 16 * (x.upper - x.lower) := by rw [hwidth, mul_assoc]
  linarith

/-- The grid of seventeen digits has a decimal that reads back. -/
theorem onGrid?_last (hden : 0 < den) (hr : (num / den : ℚ) = x.magnitude) (hx : x.significand ≠ 0)
    {top : Int} (hlow : (10 : ℚ) ^ (top - 1) ≤ x.magnitude) :
    ∃ d, onGrid? x num den (top - 17) = some d := by
  have hspec := steps_spec num hden (top - 17)
  simp only [hr] at hspec
  obtain ⟨hbelow, habove, -⟩ := hspec
  have hwidth := step_lt_interval hlow
  have hstep : (⟨steps num den (top - 17) + 1, top - 17⟩ : Decimal).value =
      (⟨steps num den (top - 17), top - 17⟩ : Decimal).value + 10 ^ (top - 17) := by
    rw [value, value]
    push_cast
    ring
  rcases lt_or_ge x.lower (⟨steps num den (top - 17), top - 17⟩ : Decimal).value with hlt | hle
  · have hcovers : x.Covers (⟨steps num den (top - 17), top - 17⟩ : Decimal).value :=
      ⟨.inl hlt, .inl (hbelow.trans_lt x.magnitude_lt_upper)⟩
    obtain ⟨d, hd, -⟩ := onGrid?_of_covers hden hr hx hcovers (.inl le_rfl)
    exact ⟨d, hd⟩
  · have hcovers : x.Covers (⟨steps num den (top - 17) + 1, top - 17⟩ : Decimal).value :=
      ⟨.inl ((lower_lt_magnitude hx).trans habove), .inl (by linarith)⟩
    obtain ⟨d, hd, -⟩ := onGrid?_of_covers hden hr hx hcovers (.inr le_rfl)
    exact ⟨d, hd⟩

end

end Binary64

/-! ## The shortest decimal -/

namespace Decimal

theorem value_stripZeros (fuel : Nat) (d : Decimal) : (stripZeros fuel d).value = d.value := by
  induction fuel generalizing d with
  | zero => rfl
  | succ fuel ih =>
    rw [stripZeros]
    split
    next h =>
      have htens : d.digits = d.digits / 10 * 10 := by omega
      have hcast : (d.digits : ℚ) = (d.digits / 10 : Nat) * 10 := by exact_mod_cast htens
      rw [ih, value, value, hcast, zpow_add_one₀ (by norm_num)]
      ring
    next => rfl

theorem digits_stripZeros_le (fuel : Nat) (d : Decimal) : (stripZeros fuel d).digits ≤ d.digits := by
  induction fuel generalizing d with
  | zero => exact Nat.le_refl _
  | succ fuel ih =>
    rw [stripZeros]
    split
    next => exact (ih _).trans (Nat.div_le_self _ _)
    next => exact Nat.le_refl _

/-- Without its zeros at the end a power of ten has one digit less at least. -/
theorem digits_stripZeros_lt {fuel k : Nat} (hfuel : 0 < fuel) {d : Decimal}
    (h : d.digits ≤ 10 ^ (k + 1)) : (stripZeros fuel d).digits < 10 ^ (k + 1) := by
  have hpow : 10 ^ (k + 1) = 10 ^ k * 10 := pow_succ 10 k
  have hpos : 0 < 10 ^ k := by positivity
  rcases h.lt_or_eq with hlt | heq
  · exact (digits_stripZeros_le fuel d).trans_lt hlt
  · obtain ⟨fuel, rfl⟩ := Nat.exists_eq_succ_of_ne_zero hfuel.ne'
    rw [stripZeros, if_pos (by omega)]
    refine (digits_stripZeros_le fuel _).trans_lt ?_
    rw [heq]
    change 10 ^ (k + 1) / 10 < 10 ^ (k + 1)
    omega

end Decimal

/-- What is found in a range is found for the first number that something is found for. -/
theorem exists_of_findSome?_range {α : Type} {f : Nat → Option α} {n : Nat} {a : α}
    (h : (List.range n).findSome? f = some a) :
    ∃ j < n, f j = some a ∧ ∀ i < j, f i = none := by
  induction n with
  | zero => cases h
  | succ n ih =>
    rw [List.range_succ, List.findSome?_append, Option.or_eq_some_iff] at h
    obtain hfound | ⟨hnone, hlast⟩ := h
    · obtain ⟨j, hj, hrest⟩ := ih hfound
      exact ⟨j, Nat.lt_succ_of_lt hj, hrest⟩
    · refine ⟨n, Nat.lt_succ_self n, by simpa using hlast, fun i hi => ?_⟩
      exact List.findSome?_eq_none_iff.mp hnone i (List.mem_range.mpr hi)

namespace Binary64

open Decimal

variable {x : Binary64}

theorem Covers.pos {r : ℚ} (hx : x.significand ≠ 0) (h : x.Covers r) : 0 < r := by
  have hquarters : 0 < x.lowerQuarters := lt_of_lt_of_le (by omega) x.le_lowerQuarters
  have hlower : 0 < x.lower := by
    rw [lower]
    positivity
  exact hlower.trans_le h.lower_le

theorem digits_ne_zero_of_covers (hx : x.significand ≠ 0) {c : Decimal} (h : x.Covers c.value) :
    c.digits ≠ 0 := by
  intro hzero
  have hpos := h.pos hx
  rw [Decimal.value, hzero, Nat.cast_zero, zero_mul] at hpos
  exact hpos.false

theorem magnitude_eq_quotient (x : Binary64) :
    ((x.significand * twoTo x.scale.toNat : Nat) / (twoTo (-x.scale).toNat : Nat) : ℚ) =
      x.magnitude := by
  have hquotient := quotient_mul_zpow two_ne_zero x.significand 1 x.scale
  rw [one_mul, Nat.cast_one, div_one] at hquotient
  exact hquotient

/-- The shortest decimal is found on one of the grids, and on none before it. -/
theorem shortest_found (hx : x.significand ≠ 0) :
    ∃ top : Int, (10 : ℚ) ^ (top - 1) ≤ x.magnitude ∧ x.magnitude < 10 ^ top ∧
      ∃ j d, shortest x = stripZeros 17 d ∧
        let grid (i : Nat) := onGrid? x (x.significand * twoTo x.scale.toNat) (twoTo (-x.scale).toNat)
          (top - 1 - i)
        grid j = some d ∧ ∀ i < j, grid i = none := by
  have hnum : 0 < x.significand * twoTo x.scale.toNat := Nat.mul_pos (by omega) (twoTo_pos _)
  have hden := twoTo_pos (-x.scale).toNat
  obtain ⟨hlow, hhigh⟩ := magnitude_spec hnum hden
  have hr := magnitude_eq_quotient x
  rw [hr] at hlow hhigh
  refine ⟨_, hlow, hhigh, ?_⟩
  rw [shortest]
  simp only [if_neg hnum.ne', List.findSome?_map]
  split
  next d hfound =>
    obtain ⟨j, -, hd, hnone⟩ := exists_of_findSome?_range hfound
    exact ⟨j, d, rfl, hd, hnone⟩
  next hnone =>
    -- The last grid has one.
    obtain ⟨d, hd⟩ := onGrid?_last hden hr hx hlow
    have hlast := List.findSome?_eq_none_iff.mp hnone 16 (List.mem_range.mpr (by decide))
    rw [Function.comp_apply, show ((16 : Nat) : Int) = 16 from rfl,
      show ∀ top : Int, top - 1 - 16 = top - 17 by intro top; ring, hd] at hlast
    cases hlast

/-- The decimal of a number reads back to it. Every other decimal that does has more digits, or as many
    and is not nearer. -/
theorem shortest_spec (hx : x.significand ≠ 0) :
    x.Covers (shortest x).value ∧ ∀ c : Decimal, x.Covers c.value →
      length (shortest x).digits < length c.digits ∨
        length (shortest x).digits = length c.digits ∧
          |(shortest x).value - x.magnitude| ≤ |c.value - x.magnitude| := by
  obtain ⟨top, hlow, hhigh, j, d, hshortest, hfound, hnone⟩ := shortest_found hx
  have hden := twoTo_pos (-x.scale).toNat
  have hr := magnitude_eq_quotient x
  obtain ⟨hcovers, hexponent, hdigits⟩ := of_onGrid? hfound
  rw [hshortest, value_stripZeros]
  have hlength : length (stripZeros 17 d).digits ≤ j + 1 := by
    rw [length_le_iff (Nat.succ_pos j)]
    have hsteps := steps_lt (top - 1 - j) hden (hr ▸ hhigh) rfl
    exact digits_stripZeros_lt (by decide) (by omega)
  refine ⟨hcovers, fun c hc => ?_⟩
  obtain ⟨k, hk⟩ := Nat.exists_eq_succ_of_ne_zero (length_pos c.digits).ne'
  have hfar := value_far_of_length (top - 1 - k) hden (hr ▸ hlow) (hr ▸ hhigh)
    (digits_ne_zero_of_covers hx hc) hk rfl
  obtain ⟨d', hd', hnear⟩ := onGrid?_of_covers hden hr hx hc hfar
  rcases lt_trichotomy j k with hlt | rfl | hlt
  · left
    omega
  · obtain rfl : d = d' := Option.some.inj (hfound.symm.trans hd')
    rcases hlength.lt_or_eq with hless | heq
    · left
      omega
    · right
      exact ⟨heq.trans hk.symm, hnear⟩
  · cases hd'.symm.trans (hnone k hlt)

end Binary64

end BlockScript
