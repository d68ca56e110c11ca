/-
  BlockScript.Proofs.Number.Layout

  The numerals of numbers in a script. A finite number is written with its exact value if that is an
  integer below `10 ^ 21`, and else with the value of its shortest decimal. From the binary64 number
  `0.000001` on to below `10 ^ 21` the notation is plain, and beyond it has an exponent. Integers of any
  size are plain: where they are written with all of their digits, a binary64 number of the same value
  has an exponent.
-/
import BlockScript.Proofs.Number.Numeral
import BlockScript.Proofs.Number.Rounding
import Mathlib.Data.Nat.Cast.Field

namespace BlockScript

open Script

/-- A decimal that is read as a number, while all others that are have more digits, or as many and are
    not nearer. -/
def Decimal.IsShortestOf (d : Decimal) (x : Binary64) : Prop :=
  Binary64.ofDecimal x.negative d.digits d.exponent = x ∧
    ∀ c : Decimal, Binary64.ofDecimal x.negative c.digits c.exponent = x →
      Decimal.length d.digits < Decimal.length c.digits ∨
        Decimal.length d.digits = Decimal.length c.digits ∧
          |d.value - x.magnitude| ≤ |c.value - x.magnitude|

namespace Binary64

/-- A magnitude with the sign of the number. -/
def signed (x : Binary64) (r : ℚ) : ℚ :=
  if x.negative then -r else r

variable {x y : Binary64}

theorem isZero_eq_false_iff : x.isZero = false ↔ x.significand ≠ 0 := by
  have htwo : 0 < twoTo 52 := twoTo_pos 52
  have hfraction : x.fraction = 0 ↔ x.fraction.val = 0 := Fin.ext_iff
  rw [isZero, significand]
  by_cases hexponent : x.exponent = 0
  · rw [if_pos hexponent, decide_eq_true hexponent, Bool.true_and, decide_eq_false_iff_not, hfraction]
  · rw [if_neg hexponent, decide_eq_false hexponent, Bool.false_and]
    exact iff_of_true rfl (Nat.add_pos_left htwo _).ne'

/-! ## The shortest decimal -/

/-- The decimal that is found for a finite number is its shortest. -/
theorem isShortestOf_shortest (hfinite : x.isFinite = true) (hx : x.significand ≠ 0) :
    (Decimal.shortest x).IsShortestOf x := by
  obtain ⟨hcovers, hleast⟩ := shortest_spec hx
  exact ⟨(ofDecimal_eq_iff hfinite hx _).mpr hcovers,
    fun c hc => hleast c ((ofDecimal_eq_iff hfinite hx c).mp hc)⟩

/-! ## Where positional notation begins and ends -/

/-- Where a power of ten is the shortest decimal of a number, the larger numbers have decimals that are
    as large. -/
theorem le_leadingPower_iff {k : Int} (hy : y.significand ≠ 0) (hpower : Decimal.shortest y = ⟨1, k⟩)
    (hx : x.significand ≠ 0) :
    k ≤ (Decimal.shortest x).leadingPower ↔ y.magnitude ≤ x.magnitude := by
  have hcovers := (shortest_spec hx).1
  have hcoversPower := (shortest_spec hy).1
  obtain ⟨hlow, hhigh⟩ := Decimal.value_bounds (digits_ne_zero_of_covers hx hcovers)
  have hvalue : (⟨1, k⟩ : Decimal).value = 10 ^ k := by
    rw [Decimal.value, Nat.cast_one, one_mul]
  rw [hpower, hvalue] at hcoversPower
  rcases lt_trichotomy x.magnitude y.magnitude with hlt | heq | hlt
  · have hbelow := hlow.trans_lt (hcovers.lt hcoversPower hlt)
    rw [zpow_lt_zpow_iff_right₀ (by norm_num)] at hbelow
    exact iff_of_false (not_le.mpr hbelow) (not_le.mpr hlt)
  · have hsame : ({ x with negative := y.negative } : Binary64) = y := eq_of_magnitude_eq heq rfl
    have hshortest : Decimal.shortest x = ⟨1, k⟩ := by
      rw [← hpower, ← hsame]
      rfl
    have hone : Decimal.length 1 = 1 := by decide
    rw [hshortest, Decimal.leadingPower, hone]
    exact iff_of_true (by simp) heq.ge
  · have habove := (hcoversPower.lt hcovers hlt).trans hhigh
    rw [zpow_lt_zpow_iff_right₀ (by norm_num)] at habove
    exact iff_of_true (by omega) hlt.le

/-- The binary64 number `0.000001`, the least that is written positionally. -/
def millionth : Binary64 :=
  ofDecimal false 1 (-6)

/-- The binary64 number `10 ^ 21`, the least that is written with a positive exponent. -/
def sextillion : Binary64 :=
  ofDecimal false 1 21

theorem magnitude_millionth_le : millionth.magnitude ≤ 1 := by
  have hsignificand : millionth.significand = 4722366482869645 := by decide
  have hscale : millionth.scale = -72 := by decide
  rw [magnitude, hsignificand, hscale]
  norm_num

theorem magnitude_sextillion : sextillion.magnitude = 10 ^ 21 := by
  have hsignificand : sextillion.significand = 7629394531250000 := by decide
  have hscale : sextillion.scale = 17 := by decide
  rw [magnitude, hsignificand, hscale]
  norm_num

theorem positionalFrom_le_iff (hx : x.significand ≠ 0) :
    -6 ≤ (Decimal.shortest x).leadingPower ↔ millionth.magnitude ≤ x.magnitude :=
  le_leadingPower_iff (by decide) (by decide) hx

theorem lt_positionalBelow_iff (hx : x.significand ≠ 0) :
    (Decimal.shortest x).leadingPower < 21 ↔ x.magnitude < 10 ^ 21 := by
  rw [← not_le, ← not_le, ← magnitude_sextillion]
  exact not_congr (le_leadingPower_iff (by decide) (by decide) hx)

/-! ## Integers -/

/-- The magnitude of an integer is a natural, and the integer part has all of it. -/
theorem magnitude_of_isInteger (h : x.isInteger = true) :
    ∃ n : Nat, x.magnitude = n ∧ x.truncate = if x.negative then -(n : Int) else n := by
  rw [isInteger, Bool.and_eq_true, decide_eq_true_eq] at h
  refine ⟨x.significand * twoTo x.scale.toNat / twoTo (-x.scale).toNat, ?_, rfl⟩
  have hdvd : twoTo (-x.scale).toNat ∣ x.significand * twoTo x.scale.toNat :=
    (Nat.dvd_of_mod_eq_zero h.2).mul_right _
  rw [Nat.cast_div hdvd (Nat.cast_ne_zero.mpr (twoTo_pos _).ne')]
  exact (magnitude_eq_quotient x).symm

theorem cast_truncate (h : x.isInteger = true) : (x.truncate : ℚ) = x.signed x.magnitude := by
  obtain ⟨n, hn, htruncate⟩ := magnitude_of_isInteger h
  rw [htruncate, signed, hn]
  split <;> simp

theorem one_le_of_isInteger (h : x.isInteger = true) (hx : x.significand ≠ 0) : 1 ≤ x.magnitude := by
  obtain ⟨n, hn, -⟩ := magnitude_of_isInteger h
  have hpos := (covers_magnitude hx).pos hx
  rw [hn] at hpos ⊢
  exact_mod_cast hpos

end Binary64

/-! ## Numerals with a sign -/

namespace Numeral

theorem splitSign_of_isDigits {whole rest : List Char} (h : IsDigits whole) :
    splitSign (whole ++ rest) = (false, whole ++ rest) := by
  obtain ⟨c, digits, rfl⟩ := List.exists_cons_of_ne_nil h.1
  have hc := h.2 c List.mem_cons_self
  rw [List.cons_append, splitSign.eq_def]
  split
  next heq =>
    obtain ⟨rfl, -⟩ := List.cons.inj heq
    exact absurd hc (by decide)
  next heq =>
    obtain ⟨rfl, -⟩ := List.cons.inj heq
    exact absurd hc (by decide)
  next => rfl

/-- A numeral with or without a minus sign ahead of its digits. -/
theorem value?_signed {whole rest : List Char} (h : IsDigits whole) (isNegative : Bool) {value : ℚ}
    (hvalue : unsignedValue? (whole ++ rest) = some value) :
    value? (if isNegative then '-' :: (whole ++ rest) else whole ++ rest) =
      some (if isNegative then -value else value) := by
  cases isNegative with
  | false =>
    rw [value?]
    simp only [Bool.false_eq_true, if_false, splitSign_of_isDigits h, hvalue]
    rfl
  | true =>
    rw [value?]
    simp only [if_true, splitSign, hvalue]
    rfl

/-- The decimal of an integer is plain, and has its value. -/
theorem value?_toString (n : Int) :
    value? (toString n).toList = some (n : ℚ) ∧ IsPlainDecimal (toString n).toList := by
  have hdigits := isDigits_toDigits n.natAbs
  have htext : (toString n).toList =
      if decide (n < 0) then '-' :: (Nat.toDigits 10 n.natAbs ++ [])
      else Nat.toDigits 10 n.natAbs ++ [] := by
    cases n with
    | ofNat n =>
      change (toString n).toList = _
      rw [Nat.toString_eq_repr, Nat.toList_repr, List.append_nil]
      rfl
    | negSucc n =>
      change ("-" ++ toString (n + 1)).toList = _
      rw [String.toList_append, Nat.toString_eq_repr, Nat.toList_repr, List.append_nil,
        if_pos (decide_eq_true (Int.negSucc_lt_zero n))]
      rfl
  have hunsigned : unsignedValue? (Nat.toDigits 10 n.natAbs ++ []) = some (n.natAbs : ℚ) := by
    have hvalue := unsignedValue?_eq hdigits (List.forall_mem_nil _) (.inl rfl) rfl
    simpa [fractionText, digitsValue_toDigits] using hvalue
  rw [htext]
  constructor
  · rw [value?_signed hdigits _ hunsigned]
    by_cases hneg : n < 0
    · simp [hneg, abs_of_neg hneg]
    · simp [hneg, abs_of_nonneg (not_lt.mp hneg)]
  · refine ⟨_, [], hdigits, .inl rfl, ?_⟩
    by_cases hneg : n < 0
    · exact .inr (by simp [hneg])
    · exact .inl (by simp [hneg])

/-- A decimal in positional notation, perhaps behind a minus sign. -/
theorem value?_positional (d : Decimal) (isNegative : Bool) :
    let text := (if isNegative then "-" else "") ++ d.positional
    value? text.toList = some (if isNegative then -d.value else d.value) ∧
      IsPlainDecimal text.toList := by
  intro text
  obtain ⟨whole, digits, hlist, hwhole, hdigits, hvalue⟩ := positional_value d
  have hfraction : fractionText digits = '.' :: digits := by
    rw [fractionText, List.isEmpty_eq_false_iff.mpr hdigits.1]
    rfl
  have hunsigned := unsignedValue?_eq hwhole hdigits.2 (.inl rfl) rfl
  rw [List.append_nil, hfraction, zero_sub, hvalue] at hunsigned
  have htext : text.toList =
      if isNegative then '-' :: (whole ++ '.' :: digits) else whole ++ '.' :: digits := by
    rw [String.toList_append, hlist]
    cases isNegative <;> rfl
  rw [htext]
  refine ⟨value?_signed hwhole _ hunsigned, whole, '.' :: digits, hwhole,
    .inr ⟨digits, hdigits, rfl⟩, ?_⟩
  cases isNegative
  · exact .inl rfl
  · exact .inr rfl

/-- A decimal other than zero with an exponent other than zero, perhaps behind a minus sign. -/
theorem value?_scientific {d : Decimal} (isNegative : Bool) (hdigits : d.digits ≠ 0)
    (hpower : d.leadingPower ≠ 0) :
    let text := (if isNegative then "-" else "") ++ d.scientific 1
    value? text.toList = some (if isNegative then -d.value else d.value) ∧
      IsScientific text.toList := by
  intro text
  obtain ⟨first, digits, hall, hlist, hvalue⟩ := scientific_value d
  have hdigit : ∀ c ∈ first :: digits, c.isDigit = true := hall ▸ (isDigits_toDigits d.digits).2
  have hfirst : IsDigits [first] :=
    ⟨List.cons_ne_nil _ _, List.forall_mem_singleton.mpr (hdigit first List.mem_cons_self)⟩
  have hrest : ∀ c ∈ digits, c.isDigit = true := fun c hc => hdigit c (List.mem_cons_of_mem _ hc)
  have hunsigned := unsignedValue?_eq hfirst hrest (.inr ⟨_, rfl⟩) (exponent?_eq d.leadingPower)
  rw [List.singleton_append, List.singleton_append, hvalue] at hunsigned
  have hhead : first ≠ '0' := by
    intro hzero
    have hne := head?_toDigits_ne hdigits
    rw [hall, hzero] at hne
    exact hne rfl
  have htext : text.toList = if isNegative then '-' :: ([first] ++ (fractionText digits ++
      'e' :: exponentSign d.leadingPower :: Nat.toDigits 10 d.leadingPower.natAbs))
      else [first] ++ (fractionText digits ++
        'e' :: exponentSign d.leadingPower :: Nat.toDigits 10 d.leadingPower.natAbs) := by
    rw [String.toList_append, hlist]
    cases isNegative <;> rfl
  rw [htext]
  refine ⟨value?_signed hfirst _ hunsigned, first, fractionText digits, exponentSign d.leadingPower,
    Nat.toDigits 10 d.leadingPower.natAbs, hdigit first List.mem_cons_self, hhead,
    isFraction_fractionText hrest, ?_, isDigits_toDigits _,
    head?_toDigits_ne (Int.natAbs_ne_zero.mpr hpower), ?_⟩
  · rw [exponentSign]
    split
    · exact .inr rfl
    · exact .inl rfl
  · cases isNegative
    · exact .inl rfl
    · exact .inr rfl

end Numeral

/-! ## Numerals of numbers -/

namespace Number

open Numeral Binary64

/-- Whether the number is finite. -/
def isFinite : Number → Bool
  | int _ => true
  | float x => x.isFinite

/-- The magnitude of a finite number. -/
def magnitude : Number → ℚ
  | int n => |(n : ℚ)|
  | float x => x.magnitude

/-- The value that is written for a finite number: its own, if it is an integer or a float that is one
    below `10 ^ 21`, and else that of its shortest decimal. -/
def written : Number → ℚ
  | int n => n
  | float x => x.signed
      (if x.isInteger = true ∧ x.magnitude < 10 ^ 21 then x.magnitude else (Decimal.shortest x).value)

/-- The numeral of a finite number: of its integer part, or of its shortest decimal. -/
theorem numeral_float {x : Binary64} (h : x.isFinite = true) :
    (Number.float x).numeral =
      if x.isInteger && (Decimal.shortest x).leadingPower < 21 then toString x.truncate
      else x.render scriptLayout := by
  have hexponent : x.exponent ≠ 2047 := by simpa [Binary64.isFinite] using h
  rw [numeral, Binary64.isNaN, Binary64.isInfinite, decide_eq_false hexponent]
  rfl

/-- A float that is written as an integer. -/
theorem numeral_of_integer {x : Binary64} (hfinite : x.isFinite = true) (hinteger : x.isInteger = true)
    (hbelow : (Decimal.shortest x).leadingPower < 21) :
    value? (Number.float x).numeral.toList = some (x.signed x.magnitude) ∧
      IsPlainDecimal (Number.float x).numeral.toList := by
  have hwritten : (x.isInteger && decide ((Decimal.shortest x).leadingPower < 21)) = true := by
    rw [hinteger, decide_eq_true hbelow]
    rfl
  rw [numeral_float hfinite, if_pos hwritten, ← cast_truncate hinteger]
  exact value?_toString x.truncate

/-- A float that is written as a decimal: with an exponent just if it is small or large. -/
theorem numeral_of_decimal {x : Binary64} (hfinite : x.isFinite = true) (hx : x.significand ≠ 0)
    (hnot : ¬ (x.isInteger = true ∧ x.magnitude < 10 ^ 21)) :
    value? (Number.float x).numeral.toList = some (x.signed (Decimal.shortest x).value) ∧
      (millionth.magnitude ≤ x.magnitude → x.magnitude < 10 ^ 21 →
        IsPlainDecimal (Number.float x).numeral.toList) ∧
      (x.magnitude < millionth.magnitude ∨ 10 ^ 21 ≤ x.magnitude →
        IsScientific (Number.float x).numeral.toList) := by
  have hdigits := digits_ne_zero_of_covers hx (shortest_spec hx).1
  have hwritten : ¬ (x.isInteger && decide ((Decimal.shortest x).leadingPower < 21)) = true := by
    rwa [Bool.and_eq_true, decide_eq_true_eq, lt_positionalBelow_iff hx]
  have hfrom := positionalFrom_le_iff hx
  have hbelow := lt_positionalBelow_iff hx
  rw [numeral_float hfinite, if_neg hwritten, Binary64.render]
  by_cases hpositional :
      -6 ≤ (Decimal.shortest x).leadingPower ∧ (Decimal.shortest x).leadingPower < 21
  · have hrender : (Decimal.shortest x).render scriptLayout = (Decimal.shortest x).positional :=
      if_pos hpositional
    obtain ⟨hvalue, hplain⟩ := value?_positional (Decimal.shortest x) x.negative
    rw [hrender]
    refine ⟨hvalue, fun _ _ => hplain, fun hout => ?_⟩
    rcases hout with hsmall | hlarge
    · exact absurd (hfrom.mp hpositional.1) (not_le.mpr hsmall)
    · exact absurd (hbelow.mp hpositional.2) (not_lt.mpr hlarge)
  · have hrender : (Decimal.shortest x).render scriptLayout = (Decimal.shortest x).scientific 1 :=
      if_neg hpositional
    have hpower : (Decimal.shortest x).leadingPower ≠ 0 := by
      intro hzero
      rw [hzero] at hpositional
      exact hpositional (by decide)
    obtain ⟨hvalue, hform⟩ := value?_scientific x.negative hdigits hpower
    rw [hrender]
    exact ⟨hvalue, fun hlow hhigh => absurd ⟨hfrom.mpr hlow, hbelow.mpr hhigh⟩ hpositional,
      fun _ => hform⟩

/-- A zero is an integer of no magnitude. -/
theorem integer_of_isZero {x : Binary64} (hzero : x.isZero = true) :
    x.isInteger = true ∧ (Decimal.shortest x).leadingPower < 21 ∧ x.magnitude = 0 := by
  obtain ⟨hwritten, -⟩ := of_isZero hzero
  rw [Bool.and_eq_true, decide_eq_true_eq] at hwritten
  have hsignificand : x.significand = 0 := by
    by_contra hne
    rw [isZero_eq_false_iff.mpr hne] at hzero
    cases hzero
  refine ⟨hwritten.1, hwritten.2, ?_⟩
  rw [Binary64.magnitude, hsignificand, Nat.cast_zero, zero_mul]

/-- A zero of either sign is written as a digit. -/
theorem numeral_of_isZero {x : Binary64} (hfinite : x.isFinite = true) (hzero : x.isZero = true) :
    (Number.float x).numeral = "0" := by
  obtain ⟨hwritten, htruncate⟩ := of_isZero hzero
  rw [numeral_float hfinite, if_pos hwritten, htruncate]
  rfl

/-- The numeral of a finite float, with the value that is written and in the notation of its
    magnitude. -/
theorem float_numeral {x : Binary64} (hfinite : x.isFinite = true) :
    value? (Number.float x).numeral.toList = some (Number.float x).written ∧
      (millionth.magnitude ≤ x.magnitude → x.magnitude < 10 ^ 21 →
        IsPlainDecimal (Number.float x).numeral.toList) ∧
      (x.isZero = false → x.magnitude < millionth.magnitude ∨ 10 ^ 21 ≤ x.magnitude →
        IsScientific (Number.float x).numeral.toList) := by
  rw [written]
  cases hzero : x.isZero with
  | true =>
    obtain ⟨hinteger, hbelow, hmagnitude⟩ := integer_of_isZero hzero
    obtain ⟨hvalue, hplain⟩ := numeral_of_integer hfinite hinteger hbelow
    rw [if_pos ⟨hinteger, by rw [hmagnitude]; positivity⟩]
    exact ⟨hvalue, fun _ _ => hplain, fun hnot => absurd hnot.symm Bool.false_ne_true⟩
  | false =>
    have hx := isZero_eq_false_iff.mp hzero
    by_cases hinteger : x.isInteger = true ∧ x.magnitude < 10 ^ 21
    · obtain ⟨hvalue, hplain⟩ :=
        numeral_of_integer hfinite hinteger.1 ((lt_positionalBelow_iff hx).mpr hinteger.2)
      rw [if_pos hinteger]
      refine ⟨hvalue, fun _ _ => hplain, fun _ hout => ?_⟩
      have hone := magnitude_millionth_le.trans (one_le_of_isInteger hinteger.1 hx)
      exact hout.elim (fun hsmall => absurd hone (not_le.mpr hsmall))
        fun hlarge => absurd hinteger.2 (not_lt.mpr hlarge)
    · obtain ⟨hvalue, hplain, hscientific⟩ := numeral_of_decimal hfinite hx hinteger
      rw [if_neg hinteger]
      exact ⟨hvalue, hplain, fun _ => hscientific⟩

/-- What is written for the finite numbers of a script: the value is that of the integer, or of the
    shortest decimal of the float, and a zero is a single digit. From the float `0.000001` on to below
    `10 ^ 21` the notation is plain; beyond it has an exponent exactly if the number is a float. -/
theorem numeral_value {v : Number} (hfinite : v.isFinite = true) :
    value? v.numeral.toList = some v.written ∧
      (v.isZero = true → v.numeral = "0") ∧
      (millionth.magnitude ≤ v.magnitude → v.magnitude < 10 ^ 21 →
        IsPlainDecimal v.numeral.toList) ∧
      (v.isZero = false → v.magnitude < millionth.magnitude ∨ 10 ^ 21 ≤ v.magnitude →
        (IsScientific v.numeral.toList ↔ ∃ x, v = .float x)) ∧
      ∀ x, v = .float x → x.isZero = false → (Decimal.shortest x).IsShortestOf x := by
  cases v with
  | int n =>
    obtain ⟨hvalue, hplain⟩ := value?_toString n
    refine ⟨hvalue, fun hzero => ?_, fun _ _ => hplain, fun _ _ => ?_, fun x hfloat => nomatch hfloat⟩
    · rw [isZero, decide_eq_true_eq] at hzero
      rw [hzero]
      rfl
    · exact iff_of_false (fun hscientific => hscientific.not_isPlainDecimal hplain)
        fun ⟨x, hfloat⟩ => nomatch hfloat
  | float x =>
    obtain ⟨hvalue, hplain, hscientific⟩ := float_numeral hfinite
    refine ⟨hvalue, numeral_of_isZero hfinite, hplain,
      fun hzero hout => iff_of_true (hscientific hzero hout) ⟨x, rfl⟩, ?_⟩
    rintro _ ⟨rfl⟩ hzero
    exact isShortestOf_shortest hfinite (isZero_eq_false_iff.mp hzero)

/-- The floats `-1.5e-7` and `0.1`, on either side of the least plain one. -/
theorem numeral_value_around_millionth :
    let small := ofDecimal true 15 (-8)
    let tenth := ofDecimal false 1 (-1)
    small.isFinite = true ∧ small.isZero = false ∧ small.magnitude < millionth.magnitude ∧
      IsScientific (Number.float small).numeral.toList ∧
      tenth.isFinite = true ∧ millionth.magnitude ≤ tenth.magnitude ∧ tenth.magnitude < 10 ^ 21 ∧
      IsPlainDecimal (Number.float tenth).numeral.toList := by
  intro small tenth
  have hfinite : small.isFinite = true := by decide
  have hzero : small.isZero = false := by decide
  have hsmall : small.magnitude < millionth.magnitude := by
    rw [← not_le, ← positionalFrom_le_iff (by decide)]
    decide
  have hfinite' : tenth.isFinite = true := by decide
  have htenth : millionth.magnitude ≤ tenth.magnitude := by
    rw [← positionalFrom_le_iff (by decide)]
    decide
  have htenth' : tenth.magnitude < 10 ^ 21 := by
    rw [← lt_positionalBelow_iff (by decide)]
    decide
  obtain ⟨-, -, -, hscientific, -⟩ := numeral_value (v := .float small) hfinite
  obtain ⟨-, -, hplain, -⟩ := numeral_value (v := .float tenth) hfinite'
  exact ⟨hfinite, hzero, hsmall, (hscientific hzero (.inl hsmall)).mpr ⟨small, rfl⟩, hfinite',
    htenth, htenth', hplain htenth htenth'⟩

/-- The integer `10 ^ 21` is written with all of its digits, the float of the same value with an
    exponent. -/
theorem numeral_sextillion :
    (10 : Int) ^ 21 ≤ 1000000000000000000000 ∧ sextillion.eqInt 1000000000000000000000 = true ∧
      ¬ IsScientific (Number.int 1000000000000000000000).numeral.toList ∧
      (Number.int 1000000000000000000000).numeral = "1000000000000000000000" ∧
      (Number.float sextillion).numeral = "1e+21" := by
  have hplain : IsPlainDecimal (Number.int 1000000000000000000000).numeral.toList :=
    (value?_toString 1000000000000000000000).2
  exact ⟨by decide, by decide, fun hscientific => hscientific.not_isPlainDecimal hplain,
    by decide, by decide⟩

end Number

end BlockScript
