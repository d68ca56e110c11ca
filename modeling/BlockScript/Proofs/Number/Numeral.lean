/-
  BlockScript.Proofs.Number.Numeral

  Numerals and their values. A numeral is read exactly, without rounding to a number. The texts of a
  decimal, positional and with an exponent, are read as its value.
-/
import BlockScript.Proofs.Number.Shortest
import BlockScript.Proofs.Script.Numeral

namespace BlockScript

open Script

/-! ## Reading exactly -/

namespace Numeral

/-- The digits behind a point, if there is one, and the rest. -/
def splitFraction : List Char → List Char × List Char
  | '.' :: rest => (rest.takeWhile Char.isDigit, rest.dropWhile Char.isDigit)
  | rest => ([], rest)

/-- The value of a numeral without a sign. -/
def unsignedValue? (s : List Char) : Option ℚ := do
  let whole := s.takeWhile Char.isDigit
  let (fraction, tail) := splitFraction (s.dropWhile Char.isDigit)
  let digits ← natural? (whole ++ fraction)
  let exponent ← exponent? tail
  return digits * 10 ^ (exponent - fraction.length)

/-- The value of a numeral: a sign, digits, a fraction and an exponent. -/
def value? (s : List Char) : Option ℚ :=
  let (isNegative, unsigned) := splitSign s
  (unsignedValue? unsigned).map fun value => if isNegative then -value else value

/-! ## Forms -/

/-- Digits, one at least. -/
def IsDigits (s : List Char) : Prop :=
  s ≠ [] ∧ ∀ c ∈ s, c.isDigit = true

/-- A fraction: nothing, or a point and digits. -/
def IsFraction (s : List Char) : Prop :=
  s = [] ∨ ∃ digits, IsDigits digits ∧ s = '.' :: digits

/-- A text with a minus sign ahead, or as it is. -/
def IsSigned (body s : List Char) : Prop :=
  s = body ∨ s = '-' :: body

/-- Plain decimal notation: digits, and perhaps a fraction. -/
def IsPlainDecimal (s : List Char) : Prop :=
  ∃ whole fraction, IsDigits whole ∧ IsFraction fraction ∧ IsSigned (whole ++ fraction) s

/-- Notation with an exponent: one digit other than zero, perhaps a fraction, and behind an `e` the
    sign of the exponent and its digits, the first of which is no zero. -/
def IsScientific (s : List Char) : Prop :=
  ∃ first fraction sign power, first.isDigit = true ∧ first ≠ '0' ∧ IsFraction fraction ∧
    (sign = '+' ∨ sign = '-') ∧ IsDigits power ∧ power.head? ≠ some '0' ∧
    IsSigned (first :: (fraction ++ 'e' :: sign :: power)) s

/-- The two notations exclude each other by the mark of the exponent. -/
theorem IsScientific.not_isPlainDecimal {s : List Char} (h : IsScientific s) : ¬ IsPlainDecimal s := by
  rintro ⟨whole, rest, hwhole, hrest, hplain⟩
  have hmark : 'e' ∈ s := by
    obtain ⟨first, fraction, sign, power, -, -, -, -, -, -, hsigned⟩ := h
    rcases hsigned with rfl | rfl <;> simp
  have hdigits {digits : List Char} (h : IsDigits digits) : 'e' ∉ digits :=
    fun hmem => absurd (h.2 'e' hmem) (by decide)
  have hfraction : 'e' ∉ rest := by
    rcases hrest with rfl | ⟨digits, hall, rfl⟩
    · exact List.not_mem_nil
    · simpa using hdigits hall
  rcases hplain with rfl | rfl <;> simp [hdigits hwhole, hfraction] at hmark

/-! ## Values of digits -/

theorem digitsValue_append (s t : List Char) :
    digitsValue (s ++ t) = digitsValue s * 10 ^ t.length + digitsValue t := by
  induction t using List.reverseRecOn with
  | nil => simp [digitsValue]
  | append_singleton t c ih =>
    have hlast (u : List Char) : digitsValue (u ++ [c]) = 10 * digitsValue u + (c.toNat - 48) := by
      simp [digitsValue]
    rw [← List.append_assoc, hlast, hlast, ih, List.length_append, List.length_singleton, pow_succ]
    ring

theorem digitsValue_zeros (n : Nat) : digitsValue (List.replicate n '0') = 0 := by
  induction n with
  | zero => rfl
  | succ n ih =>
    rw [List.replicate_succ', digitsValue_append, ih]
    rfl

theorem digitsValue_toDigits (n : Nat) : digitsValue (Nat.toDigits 10 n) = n :=
  Nat.ofDigitChars_ten_toDigits

theorem digitsValue_lt {s : List Char} (h : ∀ c ∈ s, c.isDigit = true) :
    digitsValue s < 10 ^ s.length := by
  induction s using List.reverseRecOn with
  | nil => decide
  | append_singleton s c ih =>
    have hc : c.toNat - 48 < 10 := by
      have hdigit := h c (by simp)
      have : c.toNat ≤ 57 := by
        simp only [Char.isDigit, Bool.and_eq_true, decide_eq_true_eq, UInt32.le_iff_toNat_le] at hdigit
        exact hdigit.2
      omega
    have hlast : digitsValue [c] = c.toNat - 48 := by simp [digitsValue]
    have hs := ih fun d hd => h d (List.mem_append_left _ hd)
    rw [digitsValue_append, hlast, List.length_append, List.length_singleton, pow_succ]
    omega

theorem isDigits_toDigits (n : Nat) : IsDigits (Nat.toDigits 10 n) :=
  ⟨Nat.toDigits_ne_nil, fun _ hc => isDigit_of_mem_toDigits hc⟩

theorem natural?_of_isDigits {s : List Char} (h : IsDigits s) : natural? s = some (digitsValue s) := by
  rw [natural?, List.isEmpty_eq_false_iff.mpr h.1, List.all_eq_true.mpr h.2]
  rfl

/-- The digits of a natural other than zero do not begin with a zero. -/
theorem head?_toDigits_ne {n : Nat} (h : n ≠ 0) : (Nat.toDigits 10 n).head? ≠ some '0' := by
  intro hhead
  obtain ⟨rest, hrest⟩ : ∃ rest, Nat.toDigits 10 n = '0' :: rest := by
    cases hdigits : Nat.toDigits 10 n with
    | nil => exact absurd hdigits Nat.toDigits_ne_nil
    | cons c rest =>
      rw [hdigits] at hhead
      exact ⟨rest, by rw [Option.some.inj hhead]⟩
  have hvalue : digitsValue rest = n := by
    rw [← digitsValue_toDigits n, hrest, ← List.singleton_append, digitsValue_append]
    simp [digitsValue]
  have hlt : n < 10 ^ rest.length := by
    rw [← hvalue]
    exact digitsValue_lt fun c hc => isDigit_of_mem_toDigits (hrest ▸ List.mem_cons_of_mem _ hc)
  have hle : 10 ^ rest.length ≤ n := Decimal.pow_le_of_length h (by rw [Decimal.length, hrest]; rfl)
  omega

/-! ## Reading the forms -/

/-- The text of a fraction; without digits it has no point. -/
def fractionText (digits : List Char) : List Char :=
  if digits.isEmpty then [] else '.' :: digits

theorem isFraction_fractionText {digits : List Char} (h : ∀ c ∈ digits, c.isDigit = true) :
    IsFraction (fractionText digits) := by
  cases digits with
  | nil => exact .inl rfl
  | cons c rest => exact .inr ⟨c :: rest, ⟨List.cons_ne_nil _ _, h⟩, rfl⟩

/-- What may stand behind a fraction: nothing, or an exponent. -/
def IsTail (tail : List Char) : Prop :=
  tail = [] ∨ ∃ rest, tail = 'e' :: rest

theorem IsTail.digits {tail : List Char} (h : IsTail tail) :
    tail.takeWhile Char.isDigit = [] ∧ tail.dropWhile Char.isDigit = tail := by
  obtain rfl | ⟨rest, rfl⟩ := h
  · exact ⟨rfl, rfl⟩
  · exact ⟨rfl, rfl⟩

theorem splitFraction_fractionText {digits tail : List Char}
    (hdigits : ∀ c ∈ digits, c.isDigit = true) (htail : IsTail tail) :
    splitFraction (fractionText digits ++ tail) = (digits, tail) := by
  cases digits with
  | nil =>
    obtain rfl | ⟨rest, rfl⟩ := htail
    · rfl
    · rfl
  | cons c rest =>
    change (((c :: rest) ++ tail).takeWhile Char.isDigit, ((c :: rest) ++ tail).dropWhile Char.isDigit) =
      _
    rw [List.takeWhile_append_of_pos hdigits, List.dropWhile_append_of_pos hdigits, htail.digits.1,
      htail.digits.2, List.append_nil]

theorem fractionText_digits {digits tail : List Char} (htail : IsTail tail) :
    (fractionText digits ++ tail).takeWhile Char.isDigit = [] ∧
      (fractionText digits ++ tail).dropWhile Char.isDigit = fractionText digits ++ tail := by
  cases digits with
  | nil => exact htail.digits
  | cons c rest => exact ⟨rfl, rfl⟩

/-- The value of digits, a fraction and an exponent. -/
theorem unsignedValue?_eq {whole digits tail : List Char} (hwhole : IsDigits whole)
    (hdigits : ∀ c ∈ digits, c.isDigit = true) (htail : IsTail tail) {exponent : Int}
    (hexponent : exponent? tail = some exponent) :
    unsignedValue? (whole ++ (fractionText digits ++ tail)) =
      some ((digitsValue (whole ++ digits) : ℚ) * 10 ^ (exponent - digits.length)) := by
  have hall : IsDigits (whole ++ digits) :=
    ⟨List.append_ne_nil_of_left_ne_nil hwhole.1 _, fun c hc =>
      (List.mem_append.mp hc).elim (hwhole.2 c) (hdigits c)⟩
  rw [unsignedValue?, List.takeWhile_append_of_pos hwhole.2, List.dropWhile_append_of_pos hwhole.2,
    (fractionText_digits htail).1, (fractionText_digits htail).2,
    splitFraction_fractionText hdigits htail, List.append_nil]
  simp only [natural?_of_isDigits hall, hexponent]
  rfl

/-! ## Decimals -/

/-- A decimal in positional notation is a plain decimal, and has its value. -/
theorem positional_value (d : Decimal) :
    ∃ whole digits, d.positional.toList = whole ++ '.' :: digits ∧ IsDigits whole ∧ IsDigits digits ∧
      (digitsValue (whole ++ digits) : ℚ) * 10 ^ (-(digits.length : Int)) = d.value := by
  have hleading : d.leadingPower + 1 = d.exponent + (Nat.toDigits 10 d.digits).length := by
    rw [Decimal.leadingPower, Decimal.length]
    omega
  have hdigits := isDigits_toDigits d.digits
  have hzeros (n : Nat) : ∀ c ∈ List.replicate n '0', c.isDigit = true :=
    fun c hc => isDigit_of_mem_zeros hc
  have hlength : 0 < (Nat.toDigits 10 d.digits).length := List.length_pos_iff.mpr hdigits.1
  rw [Decimal.positional]
  split
  next hpoint =>
    -- All digits are behind the point, and zeros ahead of them.
    refine ⟨['0'], List.replicate (-(d.leadingPower + 1)).toNat '0' ++ Nat.toDigits 10 d.digits, ?_,
      ⟨List.cons_ne_nil _ _, List.forall_mem_singleton.mpr rfl⟩,
      ⟨List.append_ne_nil_of_right_ne_nil _ hdigits.1, ?_⟩, ?_⟩
    · simp [toList_zeros]
    · exact fun c hc => (List.mem_append.mp hc).elim (hzeros _ c) (hdigits.2 c)
    · rw [digitsValue_append, digitsValue_append, digitsValue_zeros, digitsValue_toDigits, Decimal.value]
      have hzero : digitsValue ['0'] = 0 := rfl
      rw [hzero, Nat.zero_mul, Nat.zero_mul, Nat.zero_add, Nat.zero_add, List.length_append,
        List.length_replicate]
      congr 2
      push_cast
      omega
  next hpoint =>
    split
    next hexponent =>
      -- The digits are ahead of the point, and zeros behind them.
      refine ⟨Nat.toDigits 10 d.digits ++ List.replicate d.exponent.toNat '0', ['0'], ?_,
        ⟨List.append_ne_nil_of_left_ne_nil hdigits.1 _, ?_⟩,
        ⟨List.cons_ne_nil _ _, List.forall_mem_singleton.mpr rfl⟩, ?_⟩
      · simp [toList_zeros]
      · exact fun c hc => (List.mem_append.mp hc).elim (hdigits.2 c) (hzeros _ c)
      · rw [digitsValue_append, digitsValue_append, digitsValue_zeros, digitsValue_toDigits,
          Decimal.value, List.length_replicate]
        have hzero : digitsValue ['0'] = 0 := rfl
        rw [hzero]
        push_cast
        have hpow : (10 : ℚ) ^ d.exponent = 10 ^ d.exponent.toNat := by
          rw [← zpow_natCast, Int.toNat_of_nonneg hexponent]
        rw [hpow]
        norm_num
        ring
    next hexponent =>
      -- The point is between two of the digits.
      refine ⟨(Nat.toDigits 10 d.digits).take (d.leadingPower + 1).toNat,
        (Nat.toDigits 10 d.digits).drop (d.leadingPower + 1).toNat, by simp, ⟨?_, ?_⟩, ⟨?_, ?_⟩, ?_⟩
      · rw [Ne, List.take_eq_nil_iff, not_or]
        exact ⟨by omega, hdigits.1⟩
      · exact fun c hc => hdigits.2 c (List.mem_of_mem_take hc)
      · rw [Ne, List.drop_eq_nil_iff]
        omega
      · exact fun c hc => hdigits.2 c (List.mem_of_mem_drop hc)
      · rw [List.take_append_drop, digitsValue_toDigits, Decimal.value, List.length_drop]
        congr 2
        omega

/-- The sign of an exponent. -/
def exponentSign (power : Int) : Char :=
  if power < 0 then '-' else '+'

theorem exponent?_eq (power : Int) :
    exponent? ('e' :: exponentSign power :: Nat.toDigits 10 power.natAbs) = some power := by
  have hnatural := natural?_of_isDigits (isDigits_toDigits power.natAbs)
  rw [digitsValue_toDigits] at hnatural
  rw [exponentSign]
  split
  next hneg =>
    simp only [exponent?, splitSign, hnatural]
    simp [abs_of_neg hneg]
  next hnonneg =>
    simp only [exponent?, splitSign, hnatural]
    simp [abs_of_nonneg (not_lt.mp hnonneg)]

/-- A decimal with an exponent has one digit ahead of the fraction, and its value. -/
theorem scientific_value (d : Decimal) :
    ∃ first digits, Nat.toDigits 10 d.digits = first :: digits ∧
      (d.scientific 1).toList = first :: (fractionText digits ++
        'e' :: exponentSign d.leadingPower :: Nat.toDigits 10 d.leadingPower.natAbs) ∧
      (digitsValue (first :: digits) : ℚ) * 10 ^ (d.leadingPower - digits.length) = d.value := by
  have hdigits := isDigits_toDigits d.digits
  obtain ⟨first, digits, hlist⟩ := List.exists_cons_of_ne_nil hdigits.1
  have hwidth : 1 - (toString d.leadingPower.natAbs).length = 0 := by
    have hpos : 0 < (Nat.toDigits 10 d.leadingPower.natAbs).length :=
      List.length_pos_iff.mpr Nat.toDigits_ne_nil
    rw [← String.length_toList, Nat.toString_eq_repr, Nat.toList_repr]
    omega
  refine ⟨first, digits, hlist, ?_, ?_⟩
  · rw [Decimal.scientific, hlist]
    simp only [hwidth, exponentSign, fractionText]
    cases digits <;> by_cases hneg : d.leadingPower < 0 <;> simp [hneg, toList_zeros]
  · have hvalue := digitsValue_toDigits d.digits
    rw [hlist] at hvalue
    rw [hvalue, Decimal.value, Decimal.leadingPower, Decimal.length, hlist]
    congr 2
    push_cast [List.length_cons]
    ring

end Numeral

end BlockScript
