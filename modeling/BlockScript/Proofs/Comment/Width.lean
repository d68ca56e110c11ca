/-
  BlockScript.Proofs.Comment.Width

  Settings that are accepted let every comment be wrapped, unless the column is NaN: the width behind
  the mark of comment lines is above zero for every column that is a number and not below four, be it
  an integer, a binary64 number or an infinity.
-/
import BlockScript.Generate.Site
import Mathlib.Algebra.Order.Ring.Nat

namespace BlockScript

namespace Binary64

/-! ## Sums -/

theorem twoTo_eq (n : Nat) : twoTo n = 2 ^ n := rfl

theorem le_roundedQuotient (a b : Nat) : a / b ≤ roundedQuotient a b := by
  simp only [roundedQuotient]
  split
  · exact Nat.le_refl _
  · split <;> omega

theorem ofNat_ne_zero {n k : Nat} [NeZero n] (hpos : 0 < k) (hlt : k < n) : Fin.ofNat n k ≠ 0 := by
  intro h
  have hval : k % n = 0 % n := congrArg Fin.val h
  rw [Nat.mod_eq_of_lt hlt, Nat.zero_mod] at hval
  omega

/-- A word that has anything in one of the two fields is no zero. -/
theorem isZero_eq_false {x : Binary64} (h : x.exponent ≠ 0 ∨ x.fraction ≠ 0) : x.isZero = false := by
  rw [isZero, Bool.and_eq_false_iff, decide_eq_false_iff_not, decide_eq_false_iff_not]
  exact h

/-- The word of a significand above zero is not that of a zero, on any grid of the format. -/
theorem isZero_word {m : Nat} {q : Int} (negative : Bool) (hm : 0 < m) (hq : -1074 ≤ q) :
    (if m < twoTo 52 then (⟨negative, 0, Fin.ofNat _ m⟩ : Binary64)
      else if 972 ≤ q then infinity negative
      else ⟨negative, Fin.ofNat _ (q + 1075).toNat, Fin.ofNat _ (m - twoTo 52)⟩).isZero = false := by
  split
  · rename_i hsmall
    have hfraction : Fin.ofNat 0x10000000000000 m ≠ 0 := ofNat_ne_zero hm hsmall
    exact isZero_eq_false (Or.inr hfraction)
  · split
    · rfl
    · have hexponent : Fin.ofNat 2048 (q + 1075).toNat ≠ 0 :=
        ofNat_ne_zero (by omega) (by omega)
      exact isZero_eq_false (Or.inl hexponent)

theorem isZero_ofScaled {m : Nat} {q : Int} (negative : Bool) (hm : 0 < m) (hq : -1074 ≤ q) :
    (ofScaled negative m q).isZero = false := by
  rw [ofScaled]
  by_cases hcarried : twoTo 53 ≤ m
  · have hlarge : 2 ≤ m := Nat.le_trans (by decide) hcarried
    simp only [hcarried, if_true]
    exact isZero_word negative (by omega) (by omega)
  · simp only [hcarried, if_false]
    exact isZero_word negative hm hq

/-- A quotient that is at least one is no zero. -/
theorem isZero_ofQuotient {num den : Nat} (negative : Bool) (hden : 0 < den) (h : den ≤ num) :
    (ofQuotient negative num den).isZero = false := by
  rw [ofQuotient, if_neg (by omega)]
  dsimp only
  generalize htop : (if den * twoTo ((num.log2 : Int) - den.log2).toNat ≤
      num * twoTo (-((num.log2 : Int) - den.log2)).toNat then (num.log2 : Int) - den.log2
      else (num.log2 : Int) - den.log2 - 1) = top
  have hle : top ≤ (num.log2 : Int) - den.log2 := by
    rw [← htop]
    split <;> omega
  generalize hq : max (top - 52) (-1074) = q
  have hlow : -1074 ≤ q := by omega
  -- The quotient is at least one on the grid, so what it is rounded to is above zero.
  apply isZero_ofScaled negative _ hlow
  have hscaled : den * twoTo q.toNat ≤ num * twoTo (-q).toNat := by
    by_cases hsign : q ≤ 0
    · have hzero : q.toNat = 0 := by omega
      rw [hzero, twoTo_eq, Nat.pow_zero, Nat.mul_one]
      exact Nat.le_trans h (Nat.le_mul_of_pos_right num (Nat.pow_pos (by decide)))
    · -- The grid is coarser than one, so far below the quotient.
      have hzero : (-q).toNat = 0 := by omega
      have hexponent : den.log2 + 1 + q.toNat ≤ num.log2 := by omega
      rw [hzero, twoTo_eq, twoTo_eq, Nat.pow_zero, Nat.mul_one]
      calc den * 2 ^ q.toNat ≤ 2 ^ (den.log2 + 1) * 2 ^ q.toNat :=
            Nat.mul_le_mul_right _ (Nat.le_of_lt Nat.lt_log2_self)
        _ = 2 ^ (den.log2 + 1 + q.toNat) := (Nat.pow_add ..).symm
        _ ≤ 2 ^ num.log2 := Nat.pow_le_pow_right (by decide) hexponent
        _ ≤ num := Nat.log2_self_le (by omega)
  have hpos : 0 < den * twoTo q.toNat := Nat.mul_pos hden (Nat.pow_pos (by decide))
  exact Nat.lt_of_lt_of_le (Nat.div_pos hscaled hpos) (le_roundedQuotient _ _)

theorem negative_ofScaled (negative : Bool) (m : Nat) (q : Int) :
    (ofScaled negative m q).negative = negative := by
  simp only [ofScaled]
  generalize (if twoTo 53 ≤ m then m / 2 else m) = m'
  generalize (if twoTo 53 ≤ m then q + 1 else q) = q'
  split
  · rfl
  · split <;> rfl

theorem negative_ofQuotient (negative : Bool) (num den : Nat) :
    (ofQuotient negative num den).negative = negative := by
  simp only [ofQuotient]
  split
  · rfl
  · exact negative_ofScaled negative _ _

/-! ## Words that are no numbers -/

/-- Rounding gives a number: the exponents of its words end below the one that is left for others. -/
theorem isNaN_ofScaled (negative : Bool) (m : Nat) (q : Int) :
    (ofScaled negative m q).isNaN = false := by
  simp only [ofScaled]
  generalize (if twoTo 53 ≤ m then m / 2 else m) = m'
  generalize (if twoTo 53 ≤ m then q + 1 else q) = q'
  split
  · rfl
  · split
    · rfl
    · have hexponent : (Fin.ofNat 2048 (q' + 1075).toNat).val ≠ 2047 := by
        rw [Fin.val_ofNat]
        omega
      have hne : Fin.ofNat 2048 (q' + 1075).toNat ≠ 2047 := fun h => hexponent (congrArg Fin.val h)
      rw [isNaN, Bool.and_eq_false_iff, decide_eq_false_iff_not]
      exact Or.inl hne

theorem isNaN_ofQuotient (negative : Bool) (num den : Nat) :
    (ofQuotient negative num den).isNaN = false := by
  simp only [ofQuotient]
  split
  · rfl
  · exact isNaN_ofScaled negative _ _

/-- A sum with an integer that is finite as a word is a number if the other summand is one. -/
theorem isNaN_add {x y : Binary64} (hx : x.isNaN = false) (hy : y.isNaN = false)
    (hfinite : y.isInfinite = false) : (x.add y).isNaN = false := by
  rw [add, hx, hy, hfinite]
  simp only [Bool.or_self, Bool.false_and, Bool.false_eq_true, if_false]
  split
  · exact hx
  · split
    · rfl
    · exact isNaN_ofQuotient _ _ _

/-! ## Order -/

theorem lt_zero_of_not_negative {x : Binary64} (h : x.negative = false) :
    x.lt (ofInt 0) = false := by
  have hzero : ofInt 0 = ⟨false, 0, 0⟩ := by decide
  have hkey : (0 : Int) ≤ (x.exponent.val * twoTo 52 + x.fraction.val : Nat) := Int.natCast_nonneg _
  rw [hzero]
  simp only [lt, h, Bool.and_eq_false_iff, decide_eq_false_iff_not]
  exact Or.inr (Int.not_lt.mpr hkey)

/-- A number that is not below four is no number, or is not negative and has the exponent of four or
    a larger one. -/
theorem of_not_lt_four {x : Binary64} (h : x.lt (ofInt 4) = false) :
    x.isNaN = true ∨ x.negative = false ∧ 1025 ≤ x.exponent.val := by
  have hfour : ofInt 4 = ⟨false, 1025, 0⟩ := by decide
  rw [hfour] at h
  by_cases hnan : x.isNaN = true
  · exact Or.inl hnan
  · right
    have hbig : twoTo 52 = 0x10000000000000 := by decide
    have hfraction := x.fraction.isLt
    have hnan' : isNaN ⟨false, 1025, 0⟩ = false := by decide
    cases hsign : x.negative with
    | true =>
      simp [lt, hnan, hnan', hsign, hbig] at h
      omega
    | false =>
      simp [lt, hnan, hnan', hsign, hbig] at h
      exact ⟨rfl, by omega⟩

/-- In units of `2 ^ -51` such a number is at least `2 ^ 53`. -/
theorem le_signedUnits {x : Binary64} (hsign : x.negative = false)
    (hexponent : 1025 ≤ x.exponent.val) : (2 ^ 53 : Int) ≤ x.signedUnits (-51) := by
  have hne : x.exponent ≠ 0 := by
    intro hzero
    rw [hzero] at hexponent
    exact absurd hexponent (by decide)
  have hsignificand : 2 ^ 52 ≤ x.significand := by
    rw [significand, if_neg hne, twoTo_eq]
    exact Nat.le_add_right _ _
  have hscale : 1 ≤ (x.scale - -51).toNat := by
    rw [scale, if_neg hne]
    omega
  have hunits : 2 ^ 52 * 2 ^ 1 ≤ x.significand * twoTo (x.scale - -51).toNat :=
    Nat.mul_le_mul hsignificand (Nat.pow_le_pow_right (by decide) hscale)
  simp only [signedUnits, hsign, Bool.false_eq_true, if_false]
  omega

/-- Less three such a number is still above zero, or it is no number. -/
theorem add_neg_three {x : Binary64} (h : x.lt (ofInt 4) = false) :
    (x.add (ofInt (-3))).isZero = false ∧ (x.add (ofInt (-3))).lt (ofInt 0) = false := by
  have hnan' : (ofInt (-3)).isNaN = false := by decide
  have hinfinite' : (ofInt (-3)).isInfinite = false := by decide
  have hscale' : (ofInt (-3)).scale = -51 := by decide
  have hunits' : (ofInt (-3)).signedUnits (-51) = -(3 * 2 ^ 51) := by decide
  -- No number plus anything is no number, an infinity stays one; the rest is arithmetic.
  by_cases hnan : x.isNaN = true
  · simp only [add, hnan, Bool.true_or, if_true]
    decide
  obtain ⟨hsign, hexponent⟩ := (of_not_lt_four h).resolve_left hnan
  have hne : x.exponent ≠ 0 := by
    intro hzero
    rw [hzero] at hexponent
    exact absurd hexponent (by decide)
  by_cases hinfinite : x.isInfinite = true
  · have hsum : x.add (ofInt (-3)) = x := by
      simp [add, hnan, hnan', hinfinite, hinfinite']
    rw [hsum]
    exact ⟨isZero_eq_false (Or.inl hne), lt_zero_of_not_negative hsign⟩
  have hunit : min x.scale (ofInt (-3)).scale = -51 := by
    rw [hscale', scale, if_neg hne]
    omega
  -- The sum is taken in units of `2 ^ -51`, which is the grid of minus three.
  have hlarge := le_signedUnits hsign hexponent
  generalize hsum : x.signedUnits (-51) + -(3 * 2 ^ 51) = sum
  have hpositive : (2 ^ 51 : Int) ≤ sum := by omega
  have hadd : x.add (ofInt (-3)) =
      ofQuotient false (sum.natAbs * twoTo (-51 : Int).toNat) (twoTo (-(-51) : Int).toNat) := by
    have hnot : ¬ sum < 0 := by omega
    have hnonzero : ¬ sum = 0 := by omega
    simp only [add, hnan, hnan', hinfinite, hinfinite', hunit, hunits', hsum, Bool.or_self,
      Bool.false_eq_true, if_false, hnonzero, hnot, decide_false]
  rw [hadd]
  constructor
  · apply isZero_ofQuotient false (by decide)
    have hone : twoTo (-51 : Int).toNat = 1 := by decide
    have hden : twoTo (-(-51) : Int).toNat = 2 ^ 51 := by decide
    rw [hone, hden]
    omega
  · exact lt_zero_of_not_negative (negative_ofQuotient _ _ _)

end Binary64

/-! ## Widths -/

/-- Whether a value is NaN. -/
def Json.isNaN : Json → Bool
  | num n => n.isNaN
  | _ => false

/-- A column at which comments are wrapped: one that the settings accept, and not NaN. They accept
    NaN, too, but no line is ever filled at it. -/
structure Options.IsColumn (column : Json) : Prop where
  accepted : Options.checkWrap column = .ok ()
  number : column.isNaN = false

/-- A column that is a number gives a width that is one. -/
theorem Site.isNaN_commentWidth {column : Json} (h : column.isNaN = false) {width : Number}
    (hwidth : Site.commentWidth column = .ok width) : width.isNaN = false := by
  rw [commentWidth] at hwidth
  cases column with
  | bool b =>
    obtain rfl := Except.ok.inj hwidth
    rfl
  | num n =>
    cases n with
    | int n =>
      obtain rfl := Except.ok.inj hwidth
      rfl
    | float x =>
      have hsummand : (Binary64.ofInt (-3)).isInfinite = false := by decide
      simp only [Json.number?, Option.bind_some, Number.addInt?, hsummand] at hwidth
      obtain rfl := Except.ok.inj hwidth
      exact Binary64.isNaN_add h (by decide) hsummand
  | null | str | arr | obj => cases hwidth

/-- At such a column text can be wrapped. -/
theorem exists_limit_of_isColumn {column : Json} (hcolumn : Options.IsColumn column) :
    ∃ width limit, Site.commentWidth column = .ok width ∧
      Text.Limit.ofWidth? width = some limit := by
  obtain ⟨h, hnumeric⟩ := hcolumn
  rw [Options.checkWrap] at h
  cases hnumber : column.number? with
  | none =>
    rw [hnumber] at h
    cases h
  | some n =>
    rw [hnumber] at h
    have hlt : n.ltInt 4 = false := by
      rw [Bool.eq_false_iff]
      intro hlt
      simp only [hlt, if_true] at h
      cases h
    cases n with
    | int n =>
      have hn : 4 ≤ n := by simpa [Number.ltInt] using hlt
      refine ⟨.int (n + -3), some (n + -3).toNat, ?_, ?_⟩
      · rw [Site.commentWidth, hnumber]
        rfl
      · have hpositive : ¬ (n + -3 = 0) ∧ ¬ (n + -3 < 0) := by omega
        simp [Text.Limit.ofWidth?, Number.isZero, Number.ltInt, Number.isNaN, hpositive]
    | float x =>
      obtain ⟨hzero, hnegative⟩ := Binary64.add_neg_three hlt
      have hsummand : (Binary64.ofInt (-3)).isInfinite = false := by decide
      have hwidth : Site.commentWidth column = .ok (.float (x.add (.ofInt (-3)))) := by
        simp [Site.commentWidth, hnumber, Number.addInt?, hsummand]
        rfl
      have hnan : (x.add (.ofInt (-3))).isNaN = false := Site.isNaN_commentWidth hnumeric hwidth
      refine ⟨_, if (x.add (.ofInt (-3))).isFinite then
        some (x.add (.ofInt (-3))).truncate.toNat else none, hwidth, ?_⟩
      simp only [Text.Limit.ofWidth?, Number.isZero, Number.ltInt, Number.isNaN, hzero, hnegative,
        hnan]
      rfl

end BlockScript
