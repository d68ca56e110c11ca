/-
  BlockScript.Proofs.Index.Folding

  Adjusted literals. The literal of an integer in an index slot is adjusted at once, so that the code
  is one plain numeral, except where the slot of a negation puts a negative literal in parentheses.
-/
import BlockScript.Proofs.Index.Adjustment
import Mathlib.Data.List.TakeWhile

namespace BlockScript

open Script

/-! ## Plain numerals -/

theorem textIsDigit_of_isDigit {c : Char} (h : c.isDigit = true) : Text.isDigit c = true := by
  have hrange : 48 ≤ c.toNat ∧ c.toNat < 58 := by
    have hbounds : 48 ≤ c.toNat ∧ c.toNat ≤ 57 := by
      simpa [Char.isDigit, UInt32.le_iff_toNat_le] using h
    omega
  simp [Text.isDigit, Text.digitValue?, Text.digitZeros, hrange.1, hrange.2]

/-- Digits, perhaps behind a minus sign, are a plain numeral. -/
theorem isPlain_of_digits {s : String} {digits : List Char}
    (hs : s.toList = digits ∨ s.toList = '-' :: digits) (hne : digits ≠ [])
    (hdigits : ∀ c ∈ digits, c.isDigit = true) : Numeral.isPlain s = true := by
  have htrim : Text.trim s.toList = s.toList := by
    refine trim_eq_self fun c hc => (plain_of_isDigit ?_).1
    rcases hs with hs | hs <;> rw [hs] at hc
    · exact Or.inl (hdigits c hc)
    · exact (List.mem_cons.mp hc).symm.imp_left (hdigits c)
  have hall : ∀ c ∈ digits, Text.isDigit c = true := fun c hc =>
    textIsDigit_of_isDigit (hdigits c hc)
  have htake : digits.takeWhile Text.isDigit = digits := List.takeWhile_eq_self_iff.mpr hall
  have hdrop : digits.dropWhile Text.isDigit = [] := List.dropWhile_eq_nil_iff.mpr hall
  have hunsigned : Numeral.isPlain s = (!digits.isEmpty && true) := by
    rw [Numeral.isPlain, htrim]
    rcases hs with hs | hs <;> rw [hs]
    · split
      · exact absurd (hdigits '-' List.mem_cons_self) (by decide)
      · simp only [htake, hdrop]
    · simp only [htake, hdrop]
  rw [hunsigned, List.isEmpty_eq_false_iff.mpr hne]
  rfl

theorem isPlain_toString (n : Int) : Numeral.isPlain (toString n) = true := by
  have hdigits : ∀ k : Nat, (toString k).toList ≠ [] ∧
      ∀ c ∈ (toString k).toList, c.isDigit = true := by
    intro k
    rw [Nat.toString_eq_repr, Nat.toList_repr]
    exact ⟨Nat.toDigits_ne_nil, fun c hc => isDigit_of_mem_toDigits hc⟩
  cases n with
  | ofNat k => exact isPlain_of_digits (Or.inl rfl) (hdigits k).1 (hdigits k).2
  | negSucc k =>
    have hsigned : (toString (Int.negSucc k)).toList = '-' :: (toString (k + 1)).toList := by
      change ("-" ++ toString (k + 1)).toList = _
      rw [String.toList_append]
      rfl
    exact isPlain_of_digits (Or.inr hsigned) (hdigits (k + 1)).1 (hdigits (k + 1)).2

/-! ## Literals in index slots -/

/-- The literal of an integer is bare in the slot of an adjusted index, unless it is negative and
    only negated there. -/
theorem wrap_indexSlot (n delta : Int) (negated : Bool) {order : Order}
    (horder : order = .none ∨ order = .subtraction) :
    Order.wrap (toString n) (Site.indexSlot delta negated order)
        (if 0 ≤ n then .atomic else .unaryNegation) =
      if n < 0 ∧ delta = 0 ∧ negated = true then "(" ++ toString n ++ ")" else toString n := by
  have hne : toString n ≠ "" := (operand_toString_int n).ne_empty
  have hatomic : (Site.indexSlot delta negated order).needsParens .atomic = false := by
    generalize Site.indexSlot delta negated order = outer
    cases outer <;> rfl
  have hnegative : (Site.indexSlot delta negated order).needsParens .unaryNegation =
      (decide (delta = 0) && negated) := by
    rw [Site.indexSlot]
    by_cases hpos : 0 < delta
    · have hzero : delta ≠ 0 := by omega
      rw [if_pos hpos, decide_eq_false hzero]
      rfl
    · rw [if_neg hpos]
      by_cases hneg : delta < 0
      · have hzero : delta ≠ 0 := by omega
        rw [if_pos hneg, decide_eq_false hzero]
        rfl
      · have hzero : delta = 0 := by omega
        rw [if_neg hneg, decide_eq_true hzero]
        cases negated
        · rcases horder with rfl | rfl <;> rfl
        · rfl
  rw [Order.wrap]
  by_cases hn : 0 ≤ n
  · have hnot : ¬ n < 0 := by omega
    simp only [hn, hnot, hatomic, if_true, Bool.and_false, Bool.false_eq_true, if_false, false_and]
  · have hlt : n < 0 := by omega
    simp only [hn, hlt, hne, hnegative, if_false, ne_eq, not_false_eq_true, decide_true,
      Bool.true_and, Bool.and_eq_true, decide_eq_true_eq, true_and]

namespace Block

variable {o : Options} {p q : Pass} {b c : Block} {slot : String} {n : Int}

/-- The literal of an integer in an index slot is adjusted to the decimal of the integer that it
    comes to, whatever a rule adds to it, negated or not, in every pass that is in progress. The only
    one that is not is a negative integer that is negated and not moved: it stays behind the minus
    sign, in parentheses. -/
theorem adjustedIndex_literal (hactive : p.isActive = true) (hslot : inSlot b.values slot = some c)
    (hliteral : c.IsInteger n) (hnext : (c.site true).nextCode o p = .ok (.statement "") q)
    (attached : Bool) (delta : Int) (negated : Bool) {order : Order}
    (horder : order = .none ∨ order = .subtraction) :
    (b.site attached).adjustedIndex slot delta negated order o p = .ok
      (if n < 0 ∧ delta - o.indexBase = 0 ∧ negated = true then "-(" ++ toString n ++ ")"
        else toString (if negated then -(n + (delta - o.indexBase)) else n + (delta - o.indexBase)))
      q := by
  have hsupplied : (b.site attached).supplied slot o.firstIndex o p =
      .ok (toString n, if 0 ≤ n then .atomic else .unaryNegation) q :=
    supplied_of_expression hslot (hliteral.code_eq hactive hnext) (operand_toString_int n).ne_empty
  rw [Site.adjustedIndex_apply, Gen.bind_apply, hsupplied]
  generalize delta - o.indexBase = shift
  simp only [Site.adjusted, wrap_indexSlot n shift negated horder]
  by_cases hkept : n < 0 ∧ shift = 0 ∧ negated = true
  · rw [if_pos hkept, if_pos hkept, isPlain_parens, if_neg Bool.false_ne_true,
      adjustedCode_eq _ _ _ horder, if_pos hkept.2.2, if_pos hkept.2.1]
    simp only [← String.append_assoc]
    rfl
  · rw [if_neg hkept, if_neg hkept, isPlain_toString, if_pos rfl, Site.foldedIndex, read?_toString]
    cases negated <;> rfl

end Block

/-- A number. -/
def numberBlock (n : Int) : Block :=
  .mk ⟨.value .number, "number", [(.str "NUM", .num (.int n))], .null, .bool true, true, []⟩ [] []
    none

theorem isInteger_numberBlock (n : Int) : (numberBlock n).IsInteger n :=
  ⟨rfl, rfl, rfl, .int n, rfl, rfl⟩

theorem adjustedIndex_literal_third :
    ((charFromEnd (numberBlock 3)).site true).adjustedIndex "AT" 1 true .none .default
        (.start (.new reservedWords (some "")) []) =
      .ok "-3" (.start (.new reservedWords (some "")) []) :=
  Block.adjustedIndex_literal rfl rfl (isInteger_numberBlock 3) rfl true 1 true (Or.inl rfl)

/-- A negative literal that is only negated keeps its parentheses; its plain numeral is three. -/
theorem adjustedIndex_negative :
    ((charFromEnd (numberBlock (-3))).site true).adjustedIndex "AT" 1 true .none .default
        (.start (.new reservedWords (some "")) []) =
      .ok "-(-3)" (.start (.new reservedWords (some "")) []) ∧
    Numeral.isPlain "-(-3)" = false ∧ toString (-(-3 + (1 - Options.indexBase .default))) = "3" :=
  ⟨by with_unfolding_all rfl, by decide, by decide⟩

end BlockScript
