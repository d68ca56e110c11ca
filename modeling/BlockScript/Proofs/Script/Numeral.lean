/-
  BlockScript.Proofs.Script.Numeral

  Numbers as the script reads them: a numeral, perhaps behind a minus sign, or the name of a value
  that no digits express. The precedence that goes with a number covers the sign.
-/
import BlockScript.Number.Numeral
import BlockScript.Proofs.Script.Atom

namespace BlockScript.Script

/-! ## Integers -/

theorem isDigit_of_mem_toDigits {n : Nat} {c : Char} (h : c ∈ Nat.toDigits 10 n) :
    c.isDigit = true :=
  Nat.isDigit_of_mem_toDigits (by decide) (by decide) h

theorem isUnsigned_toString (n : Nat) : isUnsigned (toString n).toList = true := by
  rw [Nat.toString_eq_repr, Nat.toList_repr]
  exact isUnsigned_digits Nat.toDigits_ne_nil fun c hc => isDigit_of_mem_toDigits hc

/-- The digits of a natural are read as it. -/
theorem natural?_toString (n : Nat) : Numeral.natural? (toString n).toList = some n := by
  rw [Nat.toString_eq_repr, Nat.toList_repr]
  have hdigits : (Nat.toDigits 10 n).all Char.isDigit = true :=
    List.all_eq_true.mpr fun c hc => isDigit_of_mem_toDigits hc
  have hne : (Nat.toDigits 10 n).isEmpty = false := by
    rw [List.isEmpty_eq_false_iff]
    exact Nat.toDigits_ne_nil
  rw [Numeral.natural?, hdigits, hne]
  exact congrArg some Nat.ofDigitChars_ten_toDigits

/-- A natural is one numeral. -/
theorem tokens_toString (n : Nat) : tokens (toString n) = [.numeral (toString n)] :=
  (tokens_unsigned (isUnsigned_toString n)).1

theorem operand_toString (n : Nat) : Operand 0 (toString n) :=
  operand_unsigned (isUnsigned_toString n)

theorem operand_toString_int (n : Int) :
    Operand (if 0 ≤ n then 0 else 4) (toString n) := by
  cases n with
  | ofNat n => exact (operand_toString n).mono (Nat.zero_le _)
  | negSucc n =>
    rw [if_neg (by omega)]
    exact ((operand_toString (n + 1)).mono (Nat.zero_le _)).minus (Nat.le_refl 4)

/-! ## Integers read back -/

/-- What the decimal of an integer is written in is neither blank nor changed to another digit. -/
theorem plain_of_isDigit {c : Char} (h : c.isDigit = true ∨ c = '-') :
    Text.isBlank c = false ∧ Text.asciiDigit c = c := by
  rcases h with h | rfl
  · have hrange : 48 ≤ c.toNat ∧ c.toNat ≤ 57 := by
      simpa [Char.isDigit, UInt32.le_iff_toNat_le] using h
    obtain ⟨d, hd, hc⟩ : ∃ d < 10, c = Char.ofNat (48 + d) := by
      refine ⟨c.toNat - 48, by omega, ?_⟩
      rw [Nat.add_sub_cancel' hrange.1, Char.ofNat_toNat]
    have hall : ∀ d < 10, Text.isBlank (Char.ofNat (48 + d)) = false ∧
        Text.asciiDigit (Char.ofNat (48 + d)) = Char.ofNat (48 + d) := by
      decide
    rw [hc]
    exact hall d hd
  · decide

theorem dropUnderscores_eq {s : List Char} (h : '_' ∉ s) : Numeral.dropUnderscores s = some s := by
  fun_induction Numeral.dropUnderscores s <;> simp_all

/-- What is not blank is not trimmed. -/
theorem trim_eq_self {s : List Char} (h : ∀ c ∈ s, Text.isBlank c = false) : Text.trim s = s := by
  have hkept : ∀ t : List Char, (∀ c ∈ t, Text.isBlank c = false) → t.dropWhile Text.isBlank = t := by
    intro t ht
    cases t with
    | nil => rfl
    | cons c rest => exact List.dropWhile_cons_of_neg (by simp [ht c List.mem_cons_self])
  rw [Text.trim, Text.trimOf, Text.trimRightOf, hkept s h, hkept s.reverse fun c hc =>
    h c (List.mem_reverse.mp hc), List.reverse_reverse]

/-- A sign and digits are read as an integer, if they are one. -/
theorem read?_of_integer {s : String} {n : Int} (hne : s.toList ≠ [])
    (hchars : ∀ c ∈ s.toList, c.isDigit = true ∨ c = '-')
    (h : (Numeral.natural? (Numeral.splitSign s.toList).2).map
      (fun k : Nat => if (Numeral.splitSign s.toList).1 then -(k : Int) else k) = some n) :
    Numeral.read? s = some (.int n) := by
  have hbody : (Text.trim s.toList).map Text.asciiDigit = s.toList := by
    rw [trim_eq_self fun c hc => (plain_of_isDigit (hchars c hc)).1]
    exact (List.map_congr_left fun c hc => (plain_of_isDigit (hchars c hc)).2).trans (List.map_id _)
  have hunderscore : '_' ∉ s.toList := by
    intro hc
    exact absurd (hchars '_' hc) (by decide)
  have hinteger : Numeral.integer? s.toList = some n := by
    rw [Numeral.integer?, dropUnderscores_eq hunderscore]
    rw [Option.map_eq_some_iff] at h
    obtain ⟨k, hk, rfl⟩ := h
    simp only [Option.bind_eq_bind, Option.bind_some, hk]
    rfl
  rw [Numeral.read?, hbody]
  simp only [List.isEmpty_eq_false_iff.mpr hne, hinteger]
  rfl

/-- The decimal of an integer is read as it. -/
theorem read?_toString (n : Int) : Numeral.read? (toString n) = some (.int n) := by
  have hdigits : ∀ k : Nat, ∀ c ∈ (toString k).toList, c.isDigit = true := by
    intro k c hc
    rw [Nat.toString_eq_repr, Nat.toList_repr] at hc
    exact isDigit_of_mem_toDigits hc
  have hne : ∀ k : Nat, (toString k).toList ≠ [] := by
    intro k
    rw [Nat.toString_eq_repr, Nat.toList_repr]
    exact Nat.toDigits_ne_nil
  cases n with
  | ofNat k =>
    change Numeral.read? (toString k) = _
    have hsplit : Numeral.splitSign (toString k).toList = (false, (toString k).toList) := by
      have hall := hdigits k
      rw [Numeral.splitSign.eq_def]
      split
      · rename_i heq
        exact absurd (hall '-' (heq ▸ List.mem_cons_self)) (by decide)
      · rename_i heq
        exact absurd (hall '+' (heq ▸ List.mem_cons_self)) (by decide)
      · rfl
    apply read?_of_integer (hne k) fun c hc => Or.inl (hdigits k c hc)
    rw [hsplit, natural?_toString]
    rfl
  | negSucc k =>
    have hchars : (toString (Int.negSucc k)).toList = '-' :: (toString (k + 1)).toList := by
      change ("-" ++ toString (k + 1)).toList = _
      rw [String.toList_append]
      rfl
    apply read?_of_integer
    · rw [hchars]
      exact List.cons_ne_nil _ _
    · rw [hchars]
      intro c hc
      rcases List.mem_cons.mp hc with rfl | hc
      · exact Or.inr rfl
      · exact Or.inl (hdigits _ c hc)
    · rw [hchars, Numeral.splitSign, natural?_toString]
      rfl

/-! ## Decimals -/

theorem isDigit_of_mem_zeros {n : Nat} {c : Char} (h : c ∈ List.replicate n '0') :
    c.isDigit = true := by
  rw [(List.mem_replicate.mp h).2]
  rfl

/-- Digits, a point and digits are an unsigned numeral. -/
theorem isUnsigned_point {s t : List Char} (hs : s ≠ []) (ht : t ≠ [])
    (hsdigits : ∀ c ∈ s, c.isDigit = true) (htdigits : ∀ c ∈ t, c.isDigit = true) :
    isUnsigned (s ++ '.' :: t) = true := by
  cases s with
  | nil => exact absurd rfl hs
  | cons c rest =>
    rw [List.cons_append, isUnsigned, hsdigits c List.mem_cons_self, Phase.run?_append,
      Phase.whole_digits fun d hd => hsdigits d (List.mem_cons_of_mem c hd), Option.bind_some,
      Phase.run?]
    change (true && (Phase.run? .point t).any Phase.isComplete) = true
    rw [Phase.point_digits ht htdigits]
    rfl

theorem toList_zeros (n : Nat) : (Decimal.zeros n).toList = List.replicate n '0' := by
  rw [Decimal.zeros, String.toList_ofList]

theorem isUnsigned_positional (d : Decimal) : isUnsigned d.positional.toList = true := by
  have hdigits : ∀ c ∈ Nat.toDigits 10 d.digits, c.isDigit = true :=
    fun c hc => isDigit_of_mem_toDigits hc
  have hpadded : ∀ n, ∀ c ∈ Nat.toDigits 10 d.digits ++ List.replicate n '0', c.isDigit = true := by
    intro n c hc
    rcases List.mem_append.mp hc with hc | hc
    · exact hdigits c hc
    · exact isDigit_of_mem_zeros hc
  have hzero : ∀ c ∈ ['0'], c.isDigit = true := List.forall_mem_singleton.mpr rfl
  have hlength := Nat.length_toDigits_pos (b := 10) (n := d.digits)
  rw [Decimal.positional]
  split
  · have hne : List.replicate (-(d.leadingPower + 1)).toNat '0' ++ Nat.toDigits 10 d.digits ≠ [] :=
      List.append_ne_nil_of_right_ne_nil _ Nat.toDigits_ne_nil
    have hpoint := isUnsigned_point (List.cons_ne_nil '0' []) hne hzero (by
      intro c hc
      rcases List.mem_append.mp hc with hc | hc
      · exact isDigit_of_mem_zeros hc
      · exact hdigits c hc)
    simpa [toList_zeros] using hpoint
  · split
    · have hne : Nat.toDigits 10 d.digits ++ List.replicate d.exponent.toNat '0' ≠ [] :=
        List.append_ne_nil_of_left_ne_nil Nat.toDigits_ne_nil _
      have hpoint := isUnsigned_point hne (List.cons_ne_nil '0' []) (hpadded _) hzero
      simpa [toList_zeros] using hpoint
    · rename_i hpoint hexponent
      have hleading : d.leadingPower + 1 = d.exponent + (Nat.toDigits 10 d.digits).length := by
        rw [Decimal.leadingPower, Decimal.length]
        omega
      have htake : (Nat.toDigits 10 d.digits).take (d.leadingPower + 1).toNat ≠ [] := by
        rw [Ne, List.take_eq_nil_iff]
        have := Nat.toDigits_ne_nil (b := 10) (n := d.digits)
        grind
      have hdrop : (Nat.toDigits 10 d.digits).drop (d.leadingPower + 1).toNat ≠ [] := by
        rw [Ne, List.drop_eq_nil_iff]
        omega
      have hunsigned := isUnsigned_point htake hdrop
        (fun c hc => hdigits c (List.mem_of_mem_take hc))
        (fun c hc => hdigits c (List.mem_of_mem_drop hc))
      simpa using hunsigned

/-- A digit, perhaps a fraction, and an exponent are an unsigned numeral. -/
theorem isUnsigned_exponent {c sign : Char} {fraction exponent : List Char}
    (hc : c.isDigit = true) (hfraction : ∀ d ∈ fraction, d.isDigit = true)
    (hsign : sign = '+' ∨ sign = '-') (hne : exponent ≠ [])
    (hexponent : ∀ d ∈ exponent, d.isDigit = true) :
    isUnsigned (c :: ((if fraction.isEmpty then [] else '.' :: fraction) ++
      'e' :: sign :: exponent)) = true := by
  have hmark : Phase.run? .mark (sign :: exponent) = some .exponent := by
    rcases hsign with rfl | rfl <;> exact Phase.sign_digits hne hexponent
  have hrest : Phase.run? .whole ((if fraction.isEmpty then [] else '.' :: fraction) ++
      'e' :: sign :: exponent) = some .exponent := by
    cases fraction with
    | nil => exact hmark
    | cons d rest =>
      have hpoint := Phase.point_digits (List.cons_ne_nil d rest) hfraction
      change Phase.run? .point ((d :: rest) ++ 'e' :: sign :: exponent) = some .exponent
      rw [Phase.run?_append, hpoint]
      exact hmark
  rw [isUnsigned, hc, hrest]
  rfl

theorem isUnsigned_scientific (width : Nat) (d : Decimal) :
    isUnsigned (d.scientific width).toList = true := by
  have hdigits : ∀ c ∈ Nat.toDigits 10 d.digits, c.isDigit = true :=
    fun c hc => isDigit_of_mem_toDigits hc
  cases hd : Nat.toDigits 10 d.digits with
  | nil => exact absurd hd Nat.toDigits_ne_nil
  | cons c rest =>
    rw [hd] at hdigits
    have hpower : (toString d.leadingPower.natAbs).toList = Nat.toDigits 10 d.leadingPower.natAbs := by
      rw [Nat.toString_eq_repr, Nat.toList_repr]
    have hexponent : ∀ n, ∀ e ∈ List.replicate n '0' ++ (toString d.leadingPower.natAbs).toList,
        e.isDigit = true := by
      intro n e he
      rcases List.mem_append.mp he with he | he
      · exact isDigit_of_mem_zeros he
      · rw [hpower] at he
        exact isDigit_of_mem_toDigits he
    have hne : ∀ n, List.replicate n '0' ++ (toString d.leadingPower.natAbs).toList ≠ [] := by
      intro n
      rw [hpower]
      exact List.append_ne_nil_of_right_ne_nil _ Nat.toDigits_ne_nil
    have hsign : (if d.leadingPower < 0 then '-' else '+') = '+' ∨
        (if d.leadingPower < 0 then '-' else '+') = '-' := by
      split
      · exact Or.inr rfl
      · exact Or.inl rfl
    have hunsigned := isUnsigned_exponent (hdigits c List.mem_cons_self)
      (fun e he => hdigits e (List.mem_cons_of_mem c he)) hsign (hne _) (hexponent
        (width - (toString d.leadingPower.natAbs).length))
    rw [Decimal.scientific, hd]
    cases rest <;> by_cases hp : d.leadingPower < 0 <;>
      simpa [hp, toList_zeros] using hunsigned

/-- A decimal is an unsigned numeral in every layout. -/
theorem isUnsigned_render (layout : Decimal.Layout) (d : Decimal) :
    isUnsigned (d.render layout).toList = true := by
  rw [Decimal.render]
  split
  · exact isUnsigned_positional d
  · exact isUnsigned_scientific _ d

/-! ## Numbers -/

/-- A zero is an integer, and is written without a sign. -/
theorem of_isZero {x : Binary64} (h : x.isZero = true) :
    (x.isInteger && (Decimal.shortest x).leadingPower < 21) = true ∧ x.truncate = 0 := by
  obtain ⟨negative, exponent, fraction⟩ := x
  simp only [Binary64.isZero, Bool.and_eq_true, decide_eq_true_eq] at h
  obtain ⟨rfl, rfl⟩ := h
  have hsignificand : Binary64.significand ⟨negative, 0, 0⟩ = 0 := rfl
  constructor
  · have hshortest : Decimal.shortest ⟨negative, 0, 0⟩ = ⟨0, 0⟩ := by
      simp [Decimal.shortest, hsignificand]
    rw [hshortest]
    simp [Binary64.isInteger, Binary64.isFinite, hsignificand, Decimal.leadingPower, Decimal.length]
  · simp [Binary64.truncate, hsignificand]

/-- An integer below zero has an integer part below zero. -/
theorem truncate_neg {x : Binary64} (hinteger : x.isInteger = true) (hnegative : x.negative = true)
    (hzero : x.isZero = false) : x.truncate < 0 := by
  simp only [Binary64.isInteger, Bool.and_eq_true, decide_eq_true_eq] at hinteger
  have hsignificand : 0 < x.significand := by
    rw [Binary64.significand]
    split
    · rename_i hexponent
      have hfraction : x.fraction ≠ 0 := by simpa [Binary64.isZero, hexponent] using hzero
      exact Nat.pos_of_ne_zero fun h => hfraction (Fin.ext h)
    · exact Nat.add_pos_left (Nat.two_pow_pos 52) _
  have hunit : twoTo (-x.scale).toNat ≤ x.significand * twoTo x.scale.toNat :=
    Nat.le_trans (Nat.le_of_dvd hsignificand (Nat.dvd_of_mod_eq_zero hinteger.2))
      (Nat.le_mul_of_pos_right _ (Nat.two_pow_pos _))
  have hmagnitude : 0 < x.significand * twoTo x.scale.toNat / twoTo (-x.scale).toNat :=
    Nat.div_pos hunit (Nat.two_pow_pos _)
  rw [Binary64.truncate, if_pos hnegative]
  omega

/-- A number is a name or an unsigned numeral, and has a minus sign ahead exactly if it is negative.
    Only a name is neither: that of no number. -/
theorem numeral_cases (n : Number) :
    ∃ t : String, (isName t.toList = true ∨ isUnsigned t.toList = true) ∧
      (n.numeral = t ∧ (n.isNonneg = true ∨ isName t.toList = true) ∨
        n.isNonneg = false ∧ n.numeral = "-" ++ t) := by
  have hbelow : ∀ k : Int, k < 0 → ∃ m : Nat, toString k = "-" ++ toString m := by
    intro k hk
    cases k with
    | ofNat m => exact absurd hk (Int.not_lt.mpr (Int.natCast_nonneg m))
    | negSucc m => exact ⟨m + 1, rfl⟩
  cases n with
  | int k =>
    rw [Number.isNonneg, Number.numeral]
    by_cases hk : 0 ≤ k
    · obtain ⟨m, rfl⟩ := Int.eq_ofNat_of_zero_le hk
      exact ⟨toString m, Or.inr (isUnsigned_toString m), Or.inl ⟨rfl, Or.inl (decide_eq_true hk)⟩⟩
    · obtain ⟨m, hm⟩ := hbelow k (Int.not_le.mp hk)
      exact ⟨toString m, Or.inr (isUnsigned_toString m), Or.inr ⟨decide_eq_false hk, hm⟩⟩
  | float x =>
    rw [Number.isNonneg, Number.numeral]
    by_cases hnan : x.isNaN = true
    · rw [if_pos hnan]
      exact ⟨"NaN", Or.inl (by decide), Or.inl ⟨rfl, Or.inr (by decide)⟩⟩
    rw [if_neg hnan]
    by_cases hzero : x.isZero = true
    · obtain ⟨hinteger, htruncate⟩ := of_isZero hzero
      have hinfinite : x.isInfinite = false := by
        simp only [Binary64.isZero, Bool.and_eq_true, decide_eq_true_eq] at hzero
        simp [Binary64.isInfinite, hzero.1]
      have hnonneg : x.isNonneg = true := by simp [Binary64.isNonneg, hnan, hzero]
      rw [hinfinite, if_neg Bool.false_ne_true, if_pos hinteger, htruncate]
      exact ⟨"0", Or.inr (by decide), Or.inl ⟨rfl, Or.inl hnonneg⟩⟩
    have hnonneg : x.isNonneg = !x.negative := by
      simp [Binary64.isNonneg, hnan, hzero]
    rw [hnonneg]
    cases hsign : x.negative with
    | true =>
      split
      · exact ⟨"Infinity", Or.inl (by decide), Or.inr ⟨rfl, rfl⟩⟩
      · split
        · rename_i hinteger
          obtain ⟨m, hm⟩ := hbelow x.truncate (truncate_neg (Bool.and_eq_true_iff.mp hinteger).1 hsign
            (Bool.eq_false_iff.mpr hzero))
          exact ⟨toString m, Or.inr (isUnsigned_toString m), Or.inr ⟨rfl, hm⟩⟩
        · refine ⟨_, Or.inr (isUnsigned_render Number.scriptLayout (Decimal.shortest x)), Or.inr ⟨rfl, ?_⟩⟩
          rw [Binary64.render, hsign, if_pos rfl]
    | false =>
      split
      · exact ⟨"Infinity", Or.inl (by decide), Or.inl ⟨rfl, Or.inl rfl⟩⟩
      · split
        · obtain ⟨m, hm⟩ : ∃ m : Nat, x.truncate = m := by
            rw [Binary64.truncate, hsign]
            exact ⟨_, rfl⟩
          rw [hm]
          exact ⟨toString m, Or.inr (isUnsigned_toString m), Or.inl ⟨rfl, Or.inl rfl⟩⟩
        · refine ⟨_, Or.inr (isUnsigned_render Number.scriptLayout (Decimal.shortest x)),
            Or.inl ⟨?_, Or.inl rfl⟩⟩
          rw [Binary64.render, hsign, if_neg Bool.false_ne_true, String.empty_append]

/-- A number that is written as an integer has the sign of the integer. -/
theorem isNonneg_of_numeral {n : Number} {k : Int} (h : n.numeral = toString k) :
    n.isNonneg = decide (0 ≤ k) := by
  -- What is behind a minus sign starts with a word character, unlike the sign.
  have hminus : ∀ s : String, ¬ (isName ("-" ++ s).toList = true ∨
      isUnsigned ("-" ++ s).toList = true) := by
    intro s
    rw [String.toList_append]
    rintro (hname | hunsigned)
    · exact absurd (isName_iff.mp hname) (by rintro ⟨_, _, heq, -, hc, -⟩; cases heq; cases hc)
    · cases hunsigned
  obtain ⟨t, ht, hnumeral⟩ := numeral_cases n
  cases k with
  | ofNat m =>
    have hdigits : isUnsigned (toString m).toList = true := isUnsigned_toString m
    rcases hnumeral with ⟨heq, hnonneg | hname⟩ | ⟨-, heq⟩
    · exact hnonneg
    · obtain ⟨c, rest, hs, hc, -⟩ := isName_iff.mp hname
      rw [← show t = toString m from heq.symm.trans h, hs, isUnsigned, hc] at hdigits
      cases hdigits
    · exact absurd (Or.inr hdigits) ((heq.symm.trans h) ▸ hminus t)
  | negSucc m =>
    rcases hnumeral with ⟨heq, -⟩ | ⟨hneg, -⟩
    · exact absurd ht (by rw [heq.symm.trans h]; exact hminus _)
    · exact hneg

/-- The precedence of a number covers its sign. -/
theorem operand_numeral (n : Number) :
    Operand (Order.rank (if n.isNonneg then .atomic else .unaryNegation)) n.numeral := by
  obtain ⟨t, ht, hnumeral⟩ := numeral_cases n
  have hoperand : Operand 0 t := ht.elim operand_name operand_unsigned
  rcases hnumeral with ⟨heq, -⟩ | ⟨hneg, heq⟩
  · rw [heq]
    exact hoperand.mono (Nat.zero_le _)
  · rw [heq, hneg]
    exact (hoperand.mono (Nat.zero_le 4)).minus (Nat.le_refl 4)

end BlockScript.Script
