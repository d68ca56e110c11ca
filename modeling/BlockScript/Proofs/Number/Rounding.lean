/-
  BlockScript.Proofs.Number.Rounding

  A quotient is rounded to the binary64 number that covers it, so a decimal is read as a number just if
  the number covers its value.

  A rounded significand is kept with what is left open by it: a halved one at the end of a binade, a
  short one at the least scale, and one beyond the largest number.
-/
import BlockScript.Proofs.Number.Shortest

namespace BlockScript

namespace Binary64

variable {x : Binary64} {num den : Nat}

/-! ## The rounded significand -/

/-- A quotient is at most half away from the natural that it is rounded to, and exactly so only from an
    even one. -/
theorem roundedQuotient_spec {a b : Nat} (hb : 0 < b) :
    2 * a ≤ (2 * roundedQuotient a b + 1) * b ∧ 2 * roundedQuotient a b * b ≤ 2 * a + b ∧
      (2 * a = (2 * roundedQuotient a b + 1) * b → roundedQuotient a b % 2 = 0) ∧
      (2 * roundedQuotient a b * b = 2 * a + b → roundedQuotient a b % 2 = 0) := by
  have hdivision := Nat.div_add_mod a b
  have hmod := Nat.mod_lt a hb
  have hdown : (2 * (a / b) + 1) * b = 2 * (b * (a / b)) + b ∧
      2 * (a / b) * b = 2 * (b * (a / b)) := by constructor <;> ring
  have hup : (2 * (a / b + 1) + 1) * b = 2 * (b * (a / b)) + 3 * b ∧
      2 * (a / b + 1) * b = 2 * (b * (a / b)) + 2 * b := by constructor <;> ring
  simp only [roundedQuotient]
  split
  next hless =>
    rw [hdown.1, hdown.2]
    omega
  next hnotless =>
    split
    next hmore =>
      rw [hup.1, hup.2]
      omega
    next hnotmore =>
      rcases Nat.mod_two_eq_zero_or_one (a / b) with heven | hodd
      · rw [show a / b + a / b % 2 = a / b by omega, hdown.1, hdown.2]
        omega
      · rw [show a / b + a / b % 2 = a / b + 1 by omega, hup.1, hup.2]
        omega

/-- The natural that a quotient is rounded to is at most half a step away, and is even where it is just
    that. -/
theorem roundedQuotient_near (a : Nat) {b : Nat} (hb : 0 < b) :
    2 * (roundedQuotient a b : ℚ) ≤ 2 * (a / b) + 1 ∧ 2 * (a / b : ℚ) ≤ 2 * roundedQuotient a b + 1 ∧
      (2 * (roundedQuotient a b : ℚ) = 2 * (a / b) + 1 ∨
        2 * (a / b : ℚ) = 2 * roundedQuotient a b + 1 → roundedQuotient a b % 2 = 0) := by
  obtain ⟨hge, hle, hgeEven, hleEven⟩ := roundedQuotient_spec (a := a) hb
  have hb' : (0 : ℚ) < b := Nat.cast_pos.mpr hb
  have hquotient : (a : ℚ) = a / b * b := (div_mul_cancel₀ _ hb'.ne').symm
  generalize (a / b : ℚ) = t at *
  generalize roundedQuotient a b = m at *
  refine ⟨?_, ?_, ?_⟩
  · have hcast : (2 * m * b : ℚ) ≤ 2 * a + b := by exact_mod_cast hle
    refine le_of_mul_le_mul_right ?_ hb'
    linarith
  · have hcast : (2 * a : ℚ) ≤ (2 * m + 1) * b := by exact_mod_cast hge
    refine le_of_mul_le_mul_right ?_ hb'
    linarith
  · rintro (heq | heq)
    · have hcast : (2 * m * b : ℚ) = 2 * a + b := by
        rw [heq]
        linarith
      exact hleEven (by exact_mod_cast hcast)
    · have hcast : (2 * a : ℚ) = (2 * m + 1) * b := by
        rw [← heq]
        linarith
      exact hgeEven (by exact_mod_cast hcast)

/-- The powers of two around a quotient. -/
theorem log2_spec (hnum : 0 < num) (hden : 0 < den) :
    let estimate : Int := (num.log2 : Int) - den.log2
    let reached := den * twoTo estimate.toNat ≤ num * twoTo (-estimate).toNat
    let top := if reached then estimate else estimate - 1
    (2 : ℚ) ^ top ≤ num / den ∧ (num / den : ℚ) < 2 ^ (top + 1) := by
  intro estimate reached top
  have hden' : (0 : ℚ) < den := Nat.cast_pos.mpr hden
  have hnumLow : (2 : ℚ) ^ num.log2 ≤ num := by exact_mod_cast Nat.log2_self_le hnum.ne'
  have hnumHigh : (num : ℚ) < 2 ^ (num.log2 + 1) := by exact_mod_cast Nat.lt_log2_self
  have hdenLow : (2 : ℚ) ^ den.log2 ≤ den := by exact_mod_cast Nat.log2_self_le hden.ne'
  have hdenHigh : (den : ℚ) < 2 ^ (den.log2 + 1) := by exact_mod_cast Nat.lt_log2_self
  have hreached : reached ↔ (2 : ℚ) ^ estimate ≤ num / den := by
    have hscale : (0 : ℚ) < twoTo (-estimate).toNat := Nat.cast_pos.mpr (twoTo_pos _)
    have hcast : reached ↔ ((den * twoTo estimate.toNat : Nat) : ℚ) ≤
        (num * twoTo (-estimate).toNat : Nat) := Nat.cast_le.symm
    rw [hcast, le_div_iff₀ hden', mul_comm (_ ^ _)]
    push_cast
    rw [cast_twoTo estimate, ← mul_assoc, mul_le_mul_iff_left₀ hscale]
  have hlow : (2 : ℚ) ^ (estimate - 1) ≤ num / den := by
    rw [le_div_iff₀ hden']
    calc (2 : ℚ) ^ (estimate - 1) * den
      _ ≤ 2 ^ (estimate - 1) * 2 ^ (den.log2 + 1) := by gcongr
      _ = 2 ^ num.log2 := by
        rw [← zpow_natCast, ← zpow_natCast, ← zpow_add₀ (by norm_num)]
        congr 1
        push_cast
        omega
      _ ≤ num := hnumLow
  have hhigh : (num / den : ℚ) < 2 ^ (estimate + 1) := by
    rw [div_lt_iff₀ hden']
    calc (num : ℚ)
      _ < 2 ^ (num.log2 + 1) := hnumHigh
      _ = 2 ^ (estimate + 1) * 2 ^ den.log2 := by
        rw [← zpow_natCast, ← zpow_natCast, ← zpow_add₀ (by norm_num)]
        congr 1
        push_cast
        omega
      _ ≤ 2 ^ (estimate + 1) * den := by gcongr
  simp only [top]
  split
  next h => exact ⟨hreached.mp h, hhigh⟩
  next h =>
    rw [sub_add_cancel]
    exact ⟨hlow, not_le.mp fun hle => h (hreached.mpr hle)⟩

/-- A magnitude that is rounded to so many steps of a scale, as `ofQuotient` does it: the significand
    has all of its bits unless the scale is the least one. -/
structure Rounded (r : ℚ) (m : Nat) (q : Int) : Prop where
  le : (4 * m : ℚ) * 2 ^ (q - 2) ≤ r + 2 * 2 ^ (q - 2)
  ge : r ≤ (4 * m + 2 : ℚ) * 2 ^ (q - 2)
  even_of_eq : (4 * m : ℚ) * 2 ^ (q - 2) = r + 2 * 2 ^ (q - 2) ∨ r = (4 * m + 2 : ℚ) * 2 ^ (q - 2) →
    m % 2 = 0
  scale : -1074 ≤ q
  full : q ≠ -1074 → (4 * 4503599627370496 : ℚ) * 2 ^ (q - 2) ≤ r
  lt : r < (4 * 9007199254740992 : ℚ) * 2 ^ (q - 2)

/-- The scale is the one at which the significand has all of its bits, or the least one. -/
theorem rounded_of_bounds (hden : 0 < den) {top q : Int} (hlow : (2 : ℚ) ^ top ≤ num / den)
    (hhigh : (num / den : ℚ) < 2 ^ (top + 1)) (hq : max (top - 52) (-1074) = q) :
    Rounded (num / den) (roundedQuotient (num * twoTo (-q).toNat) (den * twoTo q.toNat)) q := by
  have hunit : (0 : ℚ) < 2 ^ (q - 2) := by positivity
  have hpow (k : Nat) : (2 : ℚ) ^ (q + k) = 4 * 2 ^ k * 2 ^ (q - 2) := by
    rw [zpow_add₀ (by norm_num), zpow_natCast, zpow_sub₀ (by norm_num)]
    ring
  -- The quotient in steps of the scale.
  have hscaled : (num / den : ℚ) =
      (num * twoTo (-q).toNat : Nat) / (den * twoTo q.toNat : Nat) * (4 * 2 ^ (q - 2)) := by
    have hfour := hpow 0
    rw [Nat.cast_zero, add_zero, pow_zero, mul_one] at hfour
    rw [← hfour]
    exact quotient_eq_steps two_ne_zero num den q
  have hb : 0 < den * twoTo q.toNat := Nat.mul_pos hden (twoTo_pos _)
  obtain ⟨hle, hge, heven⟩ := roundedQuotient_near (num * twoTo (-q).toNat) hb
  have hfull : q ≠ -1074 → (4 * 4503599627370496 : ℚ) * 2 ^ (q - 2) ≤ num / den := by
    intro hne
    have hscale := hpow 52
    norm_num at hscale ⊢
    rw [← hscale, show q + 52 = top by omega]
    exact hlow
  have hlt : (num / den : ℚ) < (4 * 9007199254740992 : ℚ) * 2 ^ (q - 2) := by
    have hscale := hpow 53
    norm_num at hscale ⊢
    rw [← hscale]
    exact hhigh.trans_le (zpow_le_zpow_right₀ (by norm_num) (by omega))
  rw [hscaled] at hfull hlt ⊢
  refine ⟨?_, ?_, fun heq => heven ?_, by omega, hfull, hlt⟩
  · linarith [mul_le_mul_of_nonneg_right hle hunit.le]
  · linarith [mul_le_mul_of_nonneg_right hge hunit.le]
  · exact heq.imp (fun heq => mul_right_cancel₀ hunit.ne' (by linarith))
      fun heq => mul_right_cancel₀ hunit.ne' (by linarith)

/-- A quotient is rounded at the scale of its magnitude, or at the least one. -/
theorem ofQuotient_eq_ofScaled (negative : Bool) (hnum : 0 < num) (hden : 0 < den) :
    ∃ m q, Rounded (num / den) m q ∧ ofQuotient negative num den = ofScaled negative m q := by
  obtain ⟨hlow, hhigh⟩ := log2_spec hnum hden
  rw [ofQuotient, if_neg hnum.ne']
  exact ⟨_, _, rounded_of_bounds hden hlow hhigh rfl, rfl⟩

/-! ## The rounded number -/

/-- The midpoint beyond the largest number, from which a magnitude is rounded to an infinity. -/
def overflow : ℚ :=
  (4 * 9007199254740992 - 2) * 2 ^ (969 : Int)

theorem isFinite_iff : x.isFinite = true ↔ x.exponent.val ≤ 2046 := by
  have hlt := x.exponent.isLt
  have hmost : x.exponent = 2047 ↔ x.exponent.val = 2047 := Fin.ext_iff
  rw [isFinite, decide_eq_true_eq, ne_eq, hmost]
  omega

section

variable {r : ℚ} {m : Nat} {q : Int}

/-- The significand has 53 bits, or is the next power of two. -/
theorem Rounded.le_bits (h : Rounded r m q) : m ≤ 9007199254740992 := by
  have hunit : (0 : ℚ) < 2 ^ (q - 2) := by positivity
  have hcast : (4 * m : ℚ) * 2 ^ (q - 2) < (4 * 9007199254740992 + 2) * 2 ^ (q - 2) := by
    linarith [h.le, h.lt]
  have hlt : 4 * m < 4 * 9007199254740992 + 2 := by
    exact_mod_cast (mul_lt_mul_iff_left₀ hunit).mp hcast
  omega

/-- Beyond the least scale the significand has all of its bits. -/
theorem Rounded.bits_le (h : Rounded r m q) (hq : q ≠ -1074) : 4503599627370496 ≤ m := by
  have hunit : (0 : ℚ) < 2 ^ (q - 2) := by positivity
  have hcast := (mul_le_mul_iff_left₀ hunit).mp ((h.full hq).trans h.ge)
  have hle : 4 * 4503599627370496 ≤ 4 * m + 2 := by exact_mod_cast hcast
  omega

/-- The lower midpoint of a number with the rounded significand is at most the magnitude. -/
theorem Rounded.lower_le (h : Rounded r m q) (hr : 0 < r) :
    ((4 * m - 2 : Nat) : ℚ) * 2 ^ (q - 2) < r ∨
      m % 2 = 0 ∧ ((4 * m - 2 : Nat) : ℚ) * 2 ^ (q - 2) = r := by
  rcases Nat.eq_zero_or_pos m with rfl | hm
  · exact .inl (by simpa using hr)
  · rw [Nat.cast_sub (by omega)]
    push_cast
    rcases h.le.lt_or_eq with hlt | heq
    · exact .inl (by linarith)
    · exact .inr ⟨h.even_of_eq (.inl heq), by linarith⟩

/-- The upper midpoint of a number with the rounded significand is at least the magnitude. -/
theorem Rounded.le_upper (h : Rounded r m q) :
    r < ((4 * m + 2 : Nat) : ℚ) * 2 ^ (q - 2) ∨
      m % 2 = 0 ∧ r = ((4 * m + 2 : Nat) : ℚ) * 2 ^ (q - 2) := by
  push_cast
  exact h.ge.lt_or_eq.imp id fun heq => ⟨h.even_of_eq (.inr heq), heq⟩

/-- A short significand is one of the least scale. -/
theorem covers_of_short (negative : Bool) (hr : 0 < r) (h : Rounded r m q) (hm : m < 4503599627370496) :
    Covers ⟨negative, 0, Fin.ofNat _ m⟩ r := by
  have hq : q = -1074 := by
    by_contra hne
    exact absurd (h.bits_le hne) (by omega)
  have hfraction : (Fin.ofNat 0x10000000000000 m).val = m := Nat.mod_eq_of_lt (by omega)
  have hsignificand : significand ⟨negative, 0, Fin.ofNat _ m⟩ = m := by
    rw [significand, if_pos rfl, hfraction]
  have hscale : scale ⟨negative, 0, Fin.ofNat _ m⟩ = q := by rw [scale, if_pos rfl, hq]
  have hquarters : lowerQuarters ⟨negative, 0, Fin.ofNat _ m⟩ = 4 * m - 2 := by
    rw [lowerQuarters, hsignificand]
    exact if_neg fun hboundary => Nat.not_lt_zero 1 hboundary.2
  rw [Covers, lower, upper, hquarters, hsignificand, hscale]
  exact ⟨h.lower_le hr, h.le_upper⟩

/-- The word of a significand with all of its bits. -/
theorem fields_of_full (negative : Bool) (hm : 4503599627370496 ≤ m) (hbits : m < 9007199254740992)
    (hq : -1074 ≤ q) (hbelow : q < 972) :
    let y : Binary64 := ⟨negative, Fin.ofNat _ (q + 1075).toNat, Fin.ofNat _ (m - twoTo 52)⟩
    y.exponent.val = (q + 1075).toNat ∧ y.fraction.val = m - 4503599627370496 ∧ y.significand = m ∧
      y.scale = q := by
  intro y
  have htwo : twoTo 52 = 4503599627370496 := rfl
  have hexponent : y.exponent.val = (q + 1075).toNat := Nat.mod_eq_of_lt (by omega)
  have hfraction : y.fraction.val = m - 4503599627370496 := Nat.mod_eq_of_lt (by omega)
  have hne : y.exponent ≠ 0 := by
    intro hzero
    rw [hzero] at hexponent
    change 0 = _ at hexponent
    omega
  refine ⟨hexponent, hfraction, ?_, ?_⟩
  · rw [significand, if_neg hne, hfraction, htwo]
    omega
  · rw [scale_eq, hexponent]
    omega

/-- A significand with all of its bits is that of the number. -/
theorem covers_of_full (negative : Bool) (hr : 0 < r) (h : Rounded r m q) (hm : 4503599627370496 ≤ m)
    (hbits : m < 9007199254740992) (hbelow : q < 972) :
    Covers ⟨negative, Fin.ofNat _ (q + 1075).toNat, Fin.ofNat _ (m - twoTo 52)⟩ r := by
  obtain ⟨hexponent, hfraction, hsignificand, hscale⟩ :=
    fields_of_full negative hm hbits h.scale hbelow
  rw [Covers, lower, upper, lowerQuarters, hsignificand, hscale, hexponent, hfraction]
  refine ⟨?_, h.le_upper⟩
  split
  next hboundary =>
    -- At the beginning of a binade the magnitude is not below the number.
    have hpower : m = 4503599627370496 := by omega
    have hunit : (0 : ℚ) < 2 ^ (q - 2) := by positivity
    left
    refine lt_of_lt_of_le ?_ (h.full (by omega))
    rw [hpower]
    gcongr
    norm_num
  next => exact h.lower_le hr

/-- A significand that is rounded up to one bit more is halved. -/
theorem covers_of_carried (negative : Bool) (h : Rounded r 9007199254740992 q) (hbelow : q + 1 < 972) :
    Covers ⟨negative, Fin.ofNat _ (q + 1 + 1075).toNat, Fin.ofNat _ (4503599627370496 - twoTo 52)⟩
      r := by
  have hq := h.scale
  obtain ⟨hexponent, hfraction, hsignificand, hscale⟩ :=
    fields_of_full negative (m := 4503599627370496) (Nat.le_refl _) (by decide)
      (q := q + 1) (by omega) hbelow
  have hunit : (0 : ℚ) < 2 ^ (q - 2) := by positivity
  have hdouble : (2 : ℚ) ^ (q + 1 - 2) = 2 * 2 ^ (q - 2) := by
    rw [show q + 1 - 2 = 1 + (q - 2) by ring, zpow_add₀ (by norm_num), zpow_one]
  have hle := h.le
  have hlt := h.lt
  rw [Covers, lower, upper, lowerQuarters, hsignificand, hscale, hexponent, hfraction,
    if_pos ⟨by decide, by omega⟩, hdouble]
  push_cast at hle ⊢
  constructor
  · rcases hle.lt_or_eq with hless | heq
    · exact .inl (by linarith)
    · exact .inr ⟨by decide, by linarith⟩
  · exact .inl (by linarith)

/-- A magnitude of a scale beyond that of the largest number is beyond it, too. -/
theorem Rounded.overflow_le (h : Rounded r m q) (hm : 4503599627370496 ≤ m)
    (hlarge : 972 ≤ q ∨ 971 ≤ q ∧ m = 9007199254740992) : overflow ≤ r := by
  rcases hlarge with hq | ⟨hq, rfl⟩
  · calc overflow
      _ ≤ 4 * 9007199254740992 * 2 ^ (969 : Int) := by
        rw [overflow]
        gcongr
        norm_num
      _ = 4 * 4503599627370496 * 2 ^ (1 + 969 : Int) := by
        rw [zpow_add₀ (by norm_num), zpow_one]
        ring
      _ ≤ 4 * 4503599627370496 * 2 ^ (q - 2) := by
        gcongr
        · norm_num
        · omega
      _ ≤ r := h.full (by omega)
  · have hle := h.le
    push_cast at hle
    calc overflow
      _ ≤ (4 * 9007199254740992 - 2) * 2 ^ (q - 2) := by
        rw [overflow]
        gcongr
        · norm_num
        · omega
      _ ≤ r := by linarith

/-- A rounded magnitude is that of a number that covers it, or is beyond all numbers. -/
theorem ofScaled_spec (negative : Bool) (hr : 0 < r) (h : Rounded r m q) :
    (ofScaled negative m q).negative = negative ∧
      ((ofScaled negative m q).isFinite = true ∧ (ofScaled negative m q).Covers r ∨
        (ofScaled negative m q).isFinite = false ∧ overflow ≤ r) := by
  have htwo : twoTo 52 = 4503599627370496 ∧ twoTo 53 = 9007199254740992 := ⟨rfl, rfl⟩
  have hq := h.scale
  have hbits := h.le_bits
  simp only [ofScaled]
  by_cases hcarried : twoTo 53 ≤ m
  · obtain rfl : m = 9007199254740992 := by omega
    rw [if_pos hcarried, if_pos hcarried, if_neg (by decide)]
    split
    next hlarge => exact ⟨rfl, .inr ⟨rfl, h.overflow_le (by decide) (.inr ⟨by omega, rfl⟩)⟩⟩
    next hsmall =>
      have hfields := fields_of_full negative (m := 4503599627370496) (Nat.le_refl _) (by decide)
        (q := q + 1) (by omega) (by omega)
      refine ⟨rfl, .inl ⟨isFinite_iff.mpr ?_, covers_of_carried negative h (by omega)⟩⟩
      exact hfields.1.trans_le (by omega)
  · rw [if_neg hcarried, if_neg hcarried]
    split
    next hshort => exact ⟨rfl, .inl ⟨rfl, covers_of_short negative hr h (by omega)⟩⟩
    next hfull =>
      split
      next hlarge => exact ⟨rfl, .inr ⟨rfl, h.overflow_le (by omega) (.inl hlarge)⟩⟩
      next hsmall =>
        have hfields := fields_of_full negative (m := m) (by omega) (by omega) hq (by omega)
        have hcovers := covers_of_full negative hr h (by omega) (by omega) (by omega)
        refine ⟨rfl, .inl ⟨isFinite_iff.mpr ?_, hcovers⟩⟩
        exact hfields.1.trans_le (by omega)

end

/-! ## Decimals that are read -/

/-- What a finite number covers is below the midpoint beyond the largest one. -/
theorem Covers.lt_overflow {r : ℚ} (h : x.Covers r) (hfinite : x.isFinite = true) : r < overflow := by
  have hbits := x.significand_lt
  have hexponent := isFinite_iff.mp hfinite
  have hscale : x.scale - 2 ≤ 969 := by
    rw [scale_eq]
    omega
  have hupper : x.upper ≤ (4 * x.significand + 2 : Nat) * 2 ^ (969 : Int) := by
    rw [upper]
    gcongr
    norm_num
  rcases h.2 with hlt | ⟨heven, rfl⟩
  · calc r
      _ < (4 * x.significand + 2 : Nat) * 2 ^ (969 : Int) := hlt.trans_le hupper
      _ ≤ overflow := by
        rw [overflow]
        gcongr
        norm_num
        exact_mod_cast (by omega : 4 * x.significand + 2 ≤ 36028797018963966)
  · -- The significand of the largest number is odd.
    calc x.upper
      _ ≤ (4 * x.significand + 2 : Nat) * 2 ^ (969 : Int) := hupper
      _ < overflow := by
        rw [overflow]
        gcongr
        norm_num
        exact_mod_cast (by omega : 4 * x.significand + 2 < 36028797018963966)

/-- A quotient is rounded to the finite numbers that cover it. -/
theorem ofQuotient_eq_iff (hfinite : x.isFinite = true) (hnum : 0 < num) (hden : 0 < den) :
    ofQuotient x.negative num den = x ↔ x.Covers (num / den) := by
  have hr : (0 : ℚ) < num / den := div_pos (Nat.cast_pos.mpr hnum) (Nat.cast_pos.mpr hden)
  obtain ⟨m, q, hrounded, hquotient⟩ := ofQuotient_eq_ofScaled x.negative hnum hden
  obtain ⟨hsign, hspec⟩ := ofScaled_spec x.negative hr hrounded
  rw [← hquotient] at hsign hspec
  constructor
  · intro heq
    rw [heq, hfinite] at hspec
    exact hspec.elim And.right fun hinfinite => absurd hinfinite.1.symm Bool.false_ne_true
  · intro hcovers
    rcases hspec with ⟨-, hrounded⟩ | ⟨-, hover⟩
    · exact eq_of_magnitude_eq (hrounded.unique hcovers) hsign
    · exact absurd (hcovers.lt_overflow hfinite) (not_lt.mpr hover)

theorem value_eq_quotient (d : Decimal) :
    ((d.digits * tenTo d.exponent.toNat : Nat) / (tenTo (-d.exponent).toNat : Nat) : ℚ) = d.value := by
  have hquotient := quotient_mul_zpow (by decide : 10 ≠ 0) d.digits 1 d.exponent
  rw [one_mul, Nat.cast_one, div_one] at hquotient
  exact hquotient

theorem zpow_two_le_ten (k : Nat) : (2 : ℚ) ^ (3 * k : Int) ≤ 10 ^ (k : Int) := by
  rw [zpow_mul, zpow_natCast, zpow_natCast]
  gcongr
  norm_num

/-- The decimals of a finite number other than zero are of a limited size. -/
theorem Covers.length_bounds (hfinite : x.isFinite = true) (hx : x.significand ≠ 0) {d : Decimal}
    (h : x.Covers d.value) :
    (Decimal.length d.digits : Int) + d.exponent ≤ 400 ∧
      -400 ≤ (Decimal.length d.digits : Int) + d.exponent := by
  obtain ⟨hlow, hhigh⟩ := Decimal.value_bounds (digits_ne_zero_of_covers hx h)
  have hleading : d.leadingPower + 1 = (Decimal.length d.digits : Int) + d.exponent := by
    rw [Decimal.leadingPower]
    ring
  constructor
  · have hbelow : (10 : ℚ) ^ d.leadingPower < 10 ^ ((400 : Nat) : Int) := by
      calc (10 : ℚ) ^ d.leadingPower
        _ < overflow := hlow.trans_lt (h.lt_overflow hfinite)
        _ ≤ 2 ^ (55 : Int) * 2 ^ (969 : Int) := by
          rw [overflow]
          gcongr
          norm_num
        _ = 2 ^ (1024 : Int) := by
          rw [← zpow_add₀ (by norm_num)]
          rfl
        _ ≤ 2 ^ (3 * (400 : Nat) : Int) := zpow_le_zpow_right₀ (by norm_num) (by norm_num)
        _ ≤ 10 ^ ((400 : Nat) : Int) := zpow_two_le_ten 400
    rw [zpow_lt_zpow_iff_right₀ (by norm_num)] at hbelow
    omega
  · have habove : (10 : ℚ) ^ (-(401 : Nat) : Int) < 10 ^ (d.leadingPower + 1) := by
      calc (10 : ℚ) ^ (-(401 : Nat) : Int)
        _ ≤ 2 ^ (-(3 * (401 : Nat)) : Int) := by
          rw [zpow_neg, zpow_neg]
          exact inv_anti₀ (by positivity) (zpow_two_le_ten 401)
        _ ≤ 2 ^ (-1076 : Int) := zpow_le_zpow_right₀ (by norm_num) (by norm_num)
        _ ≤ 2 * 2 ^ (-1076 : Int) := le_mul_of_one_le_left (by positivity) (by norm_num)
        _ ≤ x.lower := by
          rw [lower]
          gcongr
          · have hquarters := x.le_lowerQuarters
            exact_mod_cast (by omega : 2 ≤ x.lowerQuarters)
          · norm_num
          · rw [scale_eq]
            omega
        _ ≤ d.value := h.lower_le
        _ < 10 ^ (d.leadingPower + 1) := hhigh
    rw [zpow_lt_zpow_iff_right₀ (by norm_num)] at habove
    omega

/-- A decimal is read as a finite number just if the number covers its value. -/
theorem ofDecimal_eq_iff (hfinite : x.isFinite = true) (hx : x.significand ≠ 0) (d : Decimal) :
    ofDecimal x.negative d.digits d.exponent = x ↔ x.Covers d.value := by
  have hzero : zero x.negative ≠ x := by
    intro heq
    rw [← heq] at hx
    exact hx rfl
  have hinfinity : infinity x.negative ≠ x := by
    intro heq
    rw [← heq] at hfinite
    exact Bool.false_ne_true hfinite
  by_cases hdigits : d.digits = 0
  · rw [ofDecimal, if_pos hdigits]
    exact iff_of_false hzero fun hcovers => digits_ne_zero_of_covers hx hcovers hdigits
  simp only [ofDecimal, if_neg hdigits]
  split
  next hlarge =>
    exact iff_of_false hinfinity fun hcovers =>
      absurd (hcovers.length_bounds hfinite hx).1 (not_le.mpr hlarge)
  next =>
    split
    next hsmall =>
      exact iff_of_false hzero fun hcovers =>
        absurd (hcovers.length_bounds hfinite hx).2 (not_le.mpr hsmall)
    next =>
      rw [ofQuotient_eq_iff hfinite (Nat.mul_pos (Nat.pos_of_ne_zero hdigits) (tenTo_pos _))
        (tenTo_pos _), value_eq_quotient]

end Binary64

end BlockScript
