/-
  BlockScript.Proofs.Number.Interval

  The magnitudes that a binary64 number is nearest to. They lie between the midpoints to its neighbours,
  with a midpoint if the significand is even. The intervals of two numbers do not meet, and are ordered
  as the numbers are.
-/
import BlockScript.Number.Decimal
import Mathlib.Algebra.Order.Field.Power
import Mathlib.Data.Rat.Cast.Order
import Mathlib.Tactic.FieldSimp
import Mathlib.Tactic.Linarith
import Mathlib.Tactic.NormNum
import Mathlib.Tactic.Positivity
import Mathlib.Tactic.Ring

namespace BlockScript

/-! ## Values -/

/-- The value of a decimal. -/
def Decimal.value (d : Decimal) : ℚ :=
  d.digits * 10 ^ d.exponent

namespace Binary64

/-- The magnitude of a finite number. -/
def magnitude (x : Binary64) : ℚ :=
  x.significand * 2 ^ x.scale

/-- The midpoint to the next smaller magnitude, in quarters of the last bit. -/
def lowerQuarters (x : Binary64) : Nat :=
  if x.fraction.val = 0 ∧ 1 < x.exponent.val then 4 * x.significand - 1 else 4 * x.significand - 2

/-- The midpoint to the next smaller magnitude. -/
def lower (x : Binary64) : ℚ :=
  x.lowerQuarters * 2 ^ (x.scale - 2)

/-- The midpoint to the next larger magnitude. -/
def upper (x : Binary64) : ℚ :=
  (4 * x.significand + 2 : Nat) * 2 ^ (x.scale - 2)

/-- A magnitude is nearest to that of the number; one between two numbers goes to the even one. -/
def Covers (x : Binary64) (r : ℚ) : Prop :=
  (x.lower < r ∨ x.significand % 2 = 0 ∧ x.lower = r) ∧
    (r < x.upper ∨ x.significand % 2 = 0 ∧ r = x.upper)

/-! ## Scaled comparisons -/

/-- Powers of a base, with the negative ones on the other side. -/
theorem cast_pow_toNat {base : Nat} (h : base ≠ 0) (i : Int) :
    ((Nat.pow base i.toNat : Nat) : ℚ) = (base : ℚ) ^ i * (Nat.pow base (-i).toNat : Nat) := by
  have hbase : (base : ℚ) ≠ 0 := Nat.cast_ne_zero.mpr h
  rcases le_total 0 i with hi | hi
  · rw [Int.toNat_of_nonpos (by omega : -i ≤ 0)]
    lift i to ℕ using hi
    simp
  · rw [Int.toNat_of_nonpos hi]
    obtain ⟨k, rfl⟩ : ∃ k : ℕ, i = -k := ⟨(-i).toNat, by omega⟩
    simp [hbase]

/-- A quotient times a power of a base, as a quotient of naturals. -/
theorem quotient_mul_zpow {base : Nat} (h : base ≠ 0) (a b : Nat) (i : Int) :
    ((a * Nat.pow base i.toNat : Nat) / (b * Nat.pow base (-i).toNat : Nat) : ℚ) =
      a / b * (base : ℚ) ^ i := by
  have hpow : ((Nat.pow base (-i).toNat : Nat) : ℚ) ≠ 0 :=
    Nat.cast_ne_zero.mpr (Nat.pow_pos (Nat.pos_of_ne_zero h)).ne'
  rw [Nat.cast_mul, Nat.cast_mul, cast_pow_toNat h i, ← mul_assoc, mul_div_mul_right _ _ hpow]
  ring

/-- A quotient in steps of a power of a base. -/
theorem quotient_eq_steps {base : Nat} (h : base ≠ 0) (a b : Nat) (i : Int) :
    (a / b : ℚ) = ((a * Nat.pow base (-i).toNat : Nat) / (b * Nat.pow base i.toNat : Nat) : ℚ) *
      (base : ℚ) ^ i := by
  have hbase : (base : ℚ) ≠ 0 := Nat.cast_ne_zero.mpr h
  have hsteps := quotient_mul_zpow h a b (-i)
  rw [neg_neg] at hsteps
  rw [hsteps, mul_assoc, ← zpow_add₀ hbase, neg_add_cancel, zpow_zero, mul_one]

theorem cast_tenTo (i : Int) : (tenTo i.toNat : ℚ) = 10 ^ i * tenTo (-i).toNat :=
  cast_pow_toNat (by decide) i

theorem cast_twoTo (i : Int) : (twoTo i.toNat : ℚ) = 2 ^ i * twoTo (-i).toNat :=
  cast_pow_toNat (by decide) i

theorem tenTo_pos (n : Nat) : 0 < tenTo n :=
  Nat.pow_pos (by decide)

theorem twoTo_pos (n : Nat) : 0 < twoTo n :=
  Nat.pow_pos (by decide)

theorem compare_of_strictMono {α β : Type} [LinearOrder α] [LinearOrder β] {f : α → β}
    (hf : StrictMono f) (a b : α) : compare (f a) (f b) = compare a b := by
  rw [← cmp_eq_compare, ← cmp_eq_compare, hf.cmp_map_eq]

/-- The comparison of naturals is the one of the values. -/
theorem compareScaled_eq (a : Nat) (i : Int) (n : Nat) (j : Int) :
    Decimal.compareScaled a i n j = compare ((a : ℚ) * 10 ^ i) (n * 2 ^ j) := by
  have hfactor : (0 : ℚ) < tenTo (-i).toNat * twoTo (-j).toNat := by
    have := tenTo_pos (-i).toNat
    have := twoTo_pos (-j).toNat
    positivity
  have hleft : ((a * tenTo i.toNat * twoTo (-j).toNat : Nat) : ℚ) =
      a * 10 ^ i * (tenTo (-i).toNat * twoTo (-j).toNat) := by
    push_cast
    rw [cast_tenTo i]
    ring
  have hright : ((n * twoTo j.toNat * tenTo (-i).toNat : Nat) : ℚ) =
      n * 2 ^ j * (tenTo (-i).toNat * twoTo (-j).toNat) := by
    push_cast
    rw [cast_twoTo j]
    ring
  rw [Decimal.compareScaled, ← compare_of_strictMono (Nat.strictMono_cast (α := ℚ)), hleft, hright]
  exact compare_of_strictMono (strictMono_mul_right_of_pos hfactor) _ _

/-- A decimal reads back to a number if the number covers its value. -/
theorem readsBackTo_iff (d : Decimal) (x : Binary64) :
    d.readsBackTo x = true ↔ x.Covers d.value := by
  have heven (p : Prop) (c : Ordering) (o : Ordering) (hp : c = o ↔ p) :
      ((decide (x.significand % 2 = 0)) && decide (c = o)) = true ↔ x.significand % 2 = 0 ∧ p := by
    rw [Bool.and_eq_true, decide_eq_true_iff, decide_eq_true_iff, hp]
  rw [Decimal.readsBackTo, Bool.and_eq_true, Bool.or_eq_true, Bool.or_eq_true, compareScaled_eq,
    compareScaled_eq, decide_eq_true_iff, decide_eq_true_iff, compare_gt_iff_gt, compare_lt_iff_lt,
    heven _ _ _ compare_eq_iff_eq, heven _ _ _ compare_eq_iff_eq]
  rw [Covers, lower, upper, eq_comm (a := _ * _) (b := d.value)]
  rfl

/-! ## Intervals -/

variable {x y : Binary64} {r r' t : ℚ}

/-- What is between two magnitudes that a number covers is covered, too. -/
theorem Covers.between (h : x.Covers r) (h' : x.Covers r') (hle : r ≤ t) (hle' : t ≤ r') :
    x.Covers t := by
  constructor
  · rcases hle.eq_or_lt with rfl | hlt
    · exact h.1
    · exact .inl ((h.1.elim le_of_lt fun heq => heq.2.le).trans_lt hlt)
  · rcases hle'.eq_or_lt with rfl | hlt
    · exact h'.2
    · exact .inl (hlt.trans_le (h'.2.elim le_of_lt fun heq => heq.2.le))

theorem Covers.lower_le (h : x.Covers r) : x.lower ≤ r :=
  h.1.elim le_of_lt fun heq => heq.2.le

theorem Covers.le_upper (h : x.Covers r) : r ≤ x.upper :=
  h.2.elim le_of_lt fun heq => heq.2.le

theorem magnitude_eq_quarters (x : Binary64) :
    x.magnitude = (4 * x.significand : Nat) * 2 ^ (x.scale - 2) := by
  rw [magnitude, zpow_sub₀ (by norm_num)]
  push_cast
  ring

theorem magnitude_lt_upper (x : Binary64) : x.magnitude < x.upper := by
  rw [magnitude_eq_quarters, upper]
  gcongr
  omega

theorem lower_lt_magnitude (h : x.significand ≠ 0) : x.lower < x.magnitude := by
  rw [magnitude_eq_quarters, lower, lowerQuarters]
  gcongr
  split <;> omega

theorem covers_magnitude (h : x.significand ≠ 0) : x.Covers x.magnitude :=
  ⟨.inl (lower_lt_magnitude h), .inl x.magnitude_lt_upper⟩

/-! ## Neighbours -/

theorem significand_lt (x : Binary64) : x.significand < 9007199254740992 := by
  have hfraction := x.fraction.isLt
  have htwo : twoTo 52 = 4503599627370496 := rfl
  rw [significand]
  split <;> omega

theorem le_significand (h : x.exponent ≠ 0) : 4503599627370496 ≤ x.significand := by
  have htwo : twoTo 52 = 4503599627370496 := rfl
  rw [significand, if_neg h]
  omega

theorem scale_eq (x : Binary64) : x.scale = max (x.exponent.val : Int) 1 - 1075 := by
  rw [scale]
  split
  next h => rw [h]; rfl
  next h =>
    have : x.exponent.val ≠ 0 := fun hzero => h (Fin.ext hzero)
    omega

theorem lowerQuarters_le (x : Binary64) : x.lowerQuarters ≤ 4 * x.significand := by
  rw [lowerQuarters]
  split <;> omega

theorem le_lowerQuarters (x : Binary64) : 4 * x.significand - 2 ≤ x.lowerQuarters := by
  rw [lowerQuarters]
  split <;> omega

/-- A number of a larger scale is the larger one. -/
theorem magnitude_lt_of_scale_lt (h : x.scale < y.scale) : x.magnitude < y.magnitude := by
  obtain ⟨k, hk⟩ : ∃ k : ℕ, y.scale = (k + 1 : ℕ) + x.scale := ⟨(y.scale - x.scale - 1).toNat, by omega⟩
  have hexponent : y.exponent ≠ 0 := by
    intro hzero
    rw [scale_eq, scale_eq, hzero] at h
    simp at h
    omega
  have hlarger : x.significand < y.significand * 2 ^ (k + 1) := by
    calc x.significand
      _ < 4503599627370496 * 2 := x.significand_lt
      _ ≤ y.significand * 2 := Nat.mul_le_mul_right 2 (le_significand hexponent)
      _ ≤ y.significand * 2 ^ (k + 1) := Nat.mul_le_mul_left _ (Nat.le_self_pow (Nat.succ_ne_zero k) 2)
  have hcast : (x.significand : ℚ) < y.significand * 2 ^ (k + 1) := by exact_mod_cast hlarger
  rw [magnitude, magnitude, hk, zpow_add₀ (by norm_num), zpow_natCast, ← mul_assoc]
  gcongr

/-- Numbers of one magnitude differ in the sign at most. -/
theorem eq_of_magnitude_eq (h : x.magnitude = y.magnitude) (hsign : x.negative = y.negative) :
    x = y := by
  have hscale : x.scale = y.scale := by
    rcases lt_trichotomy x.scale y.scale with hlt | heq | hlt
    · exact absurd h (magnitude_lt_of_scale_lt hlt).ne
    · exact heq
    · exact absurd h (magnitude_lt_of_scale_lt hlt).ne'
  have hsignificand : x.significand = y.significand := by
    have hpow : (2 : ℚ) ^ y.scale ≠ 0 := by positivity
    rw [magnitude, magnitude, hscale, mul_left_inj' hpow] at h
    exact_mod_cast h
  obtain ⟨negative, exponent, fraction⟩ := x
  obtain ⟨negative', exponent', fraction'⟩ := y
  have htwo : twoTo 52 = 4503599627370496 := rfl
  simp only [scale_eq] at hscale
  simp only [significand, htwo] at hsignificand
  -- The two exponents of the smallest scale are told apart by the first bit of the significand.
  have hzero (e : Fin 2048) : e = 0 ↔ e.val = 0 := Fin.ext_iff
  have hexponent : exponent = exponent' := by
    refine Fin.ext ?_
    simp only [hzero] at hsignificand
    split at hsignificand <;> split at hsignificand <;> omega
  subst hexponent
  have hfraction : fraction = fraction' := by
    refine Fin.ext ?_
    split at hsignificand <;> omega
  rw [hfraction]
  exact congrArg (Binary64.mk · _ _) hsign

/-- A number of a larger scale has all the bits of its significand, and its lower midpoint is as near as
    a number of the smaller scale is. -/
theorem quarters_of_scale_lt (h : x.scale < y.scale) :
    4 * 9007199254740992 - 2 ≤ 2 * y.lowerQuarters ∧
      (4 * 9007199254740992 - 2 = 2 * y.lowerQuarters → y.significand % 2 = 0) := by
  have hexponent : 1 < y.exponent.val := by
    rw [scale_eq, scale_eq] at h
    omega
  have hne : y.exponent ≠ 0 := by
    intro hzero
    rw [hzero] at hexponent
    cases hexponent
  have hfull := le_significand hne
  have hsignificand : y.significand = 4503599627370496 + y.fraction.val := by
    rw [significand, if_neg hne]
    rfl
  rw [lowerQuarters]
  split
  next hboundary => omega
  next hboundary =>
    have : y.fraction.val ≠ 0 := fun hzero => hboundary ⟨hzero, hexponent⟩
    omega

/-- The interval of a number ends where that of a larger one begins, or before; where they meet just one
    of the two numbers is even. -/
theorem upper_le_lower (h : x.magnitude < y.magnitude) :
    x.upper < y.lower ∨
      x.upper = y.lower ∧ (x.significand + y.significand) % 2 = 1 := by
  have hx := x.significand_lt
  have hy := y.significand_lt
  have hpow : (0 : ℚ) < 2 ^ (x.scale - 2) := by positivity
  -- In quarters of the last bit of the first number all is about naturals.
  obtain hscale | hscale := le_or_gt x.scale y.scale
  · obtain ⟨k, hk⟩ : ∃ k : ℕ, y.scale - 2 = k + (x.scale - 2) := ⟨(y.scale - x.scale).toNat, by omega⟩
    have hunits : (2 : ℚ) ^ (y.scale - 2) = 2 ^ k * 2 ^ (x.scale - 2) := by
      rw [hk, zpow_add₀ (by norm_num), zpow_natCast]
    have hlower : y.lower = (y.lowerQuarters * 2 ^ k : Nat) * 2 ^ (x.scale - 2) := by
      rw [lower, hunits]
      push_cast
      ring
    have hquarters : 4 * x.significand < 4 * y.significand * 2 ^ k := by
      rw [magnitude_eq_quarters, magnitude_eq_quarters, hunits, ← mul_assoc,
        mul_lt_mul_iff_left₀ hpow] at h
      exact_mod_cast h
    suffices hsuff : 4 * x.significand + 2 < y.lowerQuarters * 2 ^ k ∨
        4 * x.significand + 2 = y.lowerQuarters * 2 ^ k ∧ (x.significand + y.significand) % 2 = 1 by
      rw [hlower, upper, mul_lt_mul_iff_left₀ hpow, mul_left_inj' hpow.ne', Nat.cast_lt, Nat.cast_inj]
      exact hsuff
    cases k with
    | zero =>
      have hbelow := y.le_lowerQuarters
      have hquarter : y.lowerQuarters = 4 * y.significand - 1 ∨
          y.lowerQuarters = 4 * y.significand - 2 := by
        rw [lowerQuarters]
        split <;> simp
      omega
    | succ k =>
      obtain ⟨hbelow, heven⟩ := quarters_of_scale_lt (x := x) (y := y) (by omega)
      have hgrow : 2 * y.lowerQuarters ≤ y.lowerQuarters * 2 ^ (k + 1) := by
        rw [pow_succ, mul_comm]
        exact Nat.mul_le_mul_left _ (Nat.le_mul_of_pos_left 2 (by positivity))
      omega
  · exact absurd (magnitude_lt_of_scale_lt hscale) h.not_gt

/-- No magnitude is covered by two numbers. -/
theorem Covers.unique (h : x.Covers r) (h' : y.Covers r) : x.magnitude = y.magnitude := by
  have hnot (x y : Binary64) (h : x.Covers r) (h' : y.Covers r) : ¬ x.magnitude < y.magnitude := by
    intro hlt
    rcases upper_le_lower hlt with hgap | ⟨hmeet, hodd⟩
    · exact absurd (h'.lower_le.trans h.le_upper) (not_le.mpr hgap)
    · have hupper : r = x.upper := le_antisymm h.le_upper (hmeet ▸ h'.lower_le)
      have hx : x.significand % 2 = 0 := h.2.elim (fun hlt => absurd hupper hlt.ne) fun heq => heq.1
      have hy : y.significand % 2 = 0 :=
        h'.1.elim (fun hlt => absurd (hmeet.symm.trans hupper.symm) hlt.ne) fun heq => heq.1
      omega
  exact le_antisymm (not_lt.mp (hnot y x h' h)) (not_lt.mp (hnot x y h h'))

/-- What a smaller number covers is smaller. -/
theorem Covers.lt (h : x.Covers r) (h' : y.Covers t) (hlt : x.magnitude < y.magnitude) : r < t := by
  have hle : x.upper ≤ y.lower := (upper_le_lower hlt).elim le_of_lt fun hmeet => hmeet.1.le
  refine ((h.le_upper.trans hle).trans h'.lower_le).lt_of_ne ?_
  rintro rfl
  exact hlt.ne (h.unique h')

end Binary64

end BlockScript
