/-
  BlockScript.Proofs.Substring.Index

  The index inputs of a block. What a slot supplies is the expression of the block there, or a
  default; an index is one that comes to an integer. The code that a rule writes for it comes to that
  integer, shifted by the index base and by what the rule adds, whether a literal is adjusted at once
  or code is written around an expression.
-/
import BlockScript.Proofs.Expression.Exposure
import BlockScript.Proofs.Script.Amount

namespace BlockScript

open Script

/-! ## What slots supply -/

namespace Site

/-- The default of a value slot, which the log tells of. -/
def missingInput (site : Site) (slot default : String) : Gen Expression := do
  Gen.record ⟨.defaultValue, some site.id, site.kind.name ++ "." ++ slot, default⟩
  return (default, .atomic)

/-- The expression that a value slot supplies: that of the block in it, or a default where there is
    no block or only one that is passed over. -/
def supplied (site : Site) (slot default : String) : Gen Expression :=
  match inSlot site.values slot with
  | none => site.missingInput slot default
  | some input => do
    match ← input.code with
    | .expression text order =>
      if text = "" then site.missingInput slot default else return (text, order)
    | .statement text =>
      if text = "" then site.missingInput slot default
      else throw (.statementInValueSlot input.block.kind)

/-- A rule reads what its slot supplies, in the parentheses of the slot. -/
theorem valueOr_eq (site : Site) (slot : String) (outer : Order) (default : String) :
    site.valueOr slot outer default = (do
      let e ← site.supplied slot default
      return Order.wrap e.1 outer e.2) := by
  have hdefault : Order.wrap default outer .atomic = default := by
    rw [Order.wrap]
    cases outer <;> simp [Order.needsParens, Order.rank]
  have hmissing : (do
        let e ← site.missingInput slot default
        return Order.wrap e.1 outer e.2) = (do
        Gen.record ⟨.defaultValue, some site.id, site.kind.name ++ "." ++ slot, default⟩
        return default) := by
    rw [missingInput, bind_assoc]
    simp only [pure_bind, hdefault]
  have hwrap : ∀ text order, Order.wrap text outer order = "" ↔ text = "" := by
    intro text order
    rw [Order.wrap]
    split <;> simp_all
  rw [valueOr, value, supplied]
  cases inSlot site.values slot with
  | none => rw [hmissing, pure_bind, if_pos rfl]
  | some input =>
    simp only [bind_assoc]
    refine congrArg _ (funext fun code => ?_)
    cases code with
    | expression text order =>
      by_cases htext : text = ""
      · simp only [pure_bind, hwrap, htext, if_true, hmissing]
      · simp only [pure_bind, hwrap, htext, if_false]
    | statement text =>
      by_cases htext : text = ""
      · simp only [pure_bind, htext, if_true, hmissing]
      · simp only [htext, if_false]
        rfl

end Site

/-! ## Integers -/

/-- An expression that comes to an integer: it reads as one of its precedence, and if it is a plain
    numeral it writes that integer, without a fraction. -/
structure Script.ComesTo (env : Integers) (e : Expression) (n : Int) : Prop where
  operand : Operand e.2.rank e.1
  amount : amount env e.1 = some n
  plain : Numeral.isPlain e.1 = true → Numeral.read? e.1 = some (.int n)

/-- The literal of an integer comes to it. -/
theorem Script.comesTo_toString (env : Integers) (n : Int) :
    ComesTo env (toString n, if 0 ≤ n then .atomic else .unaryNegation) n where
  operand := by
    have h := operand_toString_int n
    by_cases hn : 0 ≤ n
    · rw [if_pos hn] at h ⊢
      exact h
    · rw [if_neg hn] at h ⊢
      exact h
  amount := amount_toString_int n
  plain _ := read?_toString n

/-! ## Adjusted indices -/

/-- What stands in parentheses is no plain numeral. -/
theorem isPlain_parens (s : String) : Numeral.isPlain ("(" ++ s ++ ")") = false := by
  have htrim : ∃ rest, Text.trim ("(" ++ s ++ ")").toList = '(' :: rest := by
    rw [String.toList_append, String.toList_append, Text.trim, Text.trimOf, Text.trimRightOf]
    have hhead : List.dropWhile Text.isBlank ("(".toList ++ s.toList ++ ")".toList) =
        '(' :: (s.toList ++ [')']) := rfl
    have hlast : List.dropWhile Text.isBlank ('(' :: (s.toList ++ [')'])).reverse =
        ('(' :: (s.toList ++ [')'])).reverse := by
      rw [List.reverse_cons, List.reverse_append]
      exact List.dropWhile_cons_of_neg (by decide)
    rw [hhead, hlast, List.reverse_reverse]
    exact ⟨_, rfl⟩
  obtain ⟨rest, htrim⟩ := htrim
  have hnone : List.takeWhile Text.isDigit ('(' :: rest) = [] :=
    List.takeWhile_cons_of_neg (by decide)
  rw [Numeral.isPlain, htrim]
  change (!(List.takeWhile Text.isDigit ('(' :: rest)).isEmpty && _) = false
  rw [hnone]
  rfl

/-- Parentheses leave a plain numeral none. -/
theorem eq_of_isPlain_wrap {s : String} {outer inner : Order}
    (h : Numeral.isPlain (Order.wrap s outer inner) = true) : Order.wrap s outer inner = s := by
  rw [Order.wrap] at h ⊢
  split
  · rename_i hparens
    rw [if_pos hparens, isPlain_parens] at h
    cases h
  · rfl

theorem operand_toString_int_five (n : Int) : Operand 5 (toString n) := by
  refine (operand_toString_int n).mono ?_
  split <;> decide

/-- What binds like a sum is in parentheses behind a minus sign. -/
theorem operand_wrap_subtraction {e : Expression} (h : Operand e.2.rank e.1) :
    Operand 5 (Order.wrap e.1 .subtraction e.2) := by
  rw [Order.wrap]
  split
  · exact (operand_parens h).mono (Nat.zero_le 5)
  · rename_i hbare
    have hneeds : Order.subtraction.needsParens e.2 = false := by
      simpa [h.ne_empty] using hbare
    have hrank : ∀ inner ∈ Order.all, Order.subtraction.needsParens inner = false → inner.rank ≤ 5 := by
      decide
    have hall : e.2 ∈ Order.all := by cases e.2 <;> decide
    exact h.mono (hrank _ hall hneeds)

section

variable {env : Integers} {e : Expression} {delta n : Int} {order : Order} {negated : Bool}
  {index : String}

open Reading.Fits (indexSum)

/-- The sum of an index and an integer comes to what it says. -/
theorem amount_indexSum (hindex : Operand (Site.indexSlot delta negated order).rank index)
    (hamount : amount env index = some n) :
    amount env (indexSum index delta) = some (n + delta) ∧
      (delta ≠ 0 → Operand 6 (indexSum index delta)) := by
  rw [Site.indexSlot] at hindex
  rw [indexSum]
  by_cases hpos : 0 < delta
  · rw [if_pos hpos] at hindex ⊢
    have hdelta := operand_toString_int_five delta
    exact ⟨amount_plus hindex hdelta hamount (amount_toString_int delta),
      fun _ => hindex.between (by decide) (hdelta.mono (by decide))⟩
  · by_cases hneg : delta < 0
    · rw [if_neg hpos, if_pos hneg] at hindex ⊢
      have hdelta := operand_toString_int_five (-delta)
      have hminus := amount_minus hindex hdelta hamount (amount_toString_int (-delta))
      rw [Int.sub_neg] at hminus
      exact ⟨hminus, fun _ => hindex.between (by decide) (hdelta.mono (by decide))⟩
    · have hzero : delta = 0 := by omega
      rw [if_neg hpos, if_neg hneg]
      exact ⟨by rw [hzero, Int.add_zero, hamount], fun h => absurd hzero h⟩

/-- Where nothing or a difference is around it, an adjusted index is a sum behind a minus sign, one
    in parentheses, or a bare one. -/
theorem adjustedCode_eq (index : String) (delta : Int) (negated : Bool)
    (horder : order = .none ∨ order = .subtraction) :
    Site.adjustedCode index delta negated order =
      if negated then "-" ++ if delta = 0 then index else "(" ++ indexSum index delta ++ ")"
      else if order = .subtraction ∧ delta ≠ 0 then "(" ++ indexSum index delta ++ ")"
      else indexSum index delta := by
  have hsigned : order.needsParens .unaryNegation = false := by
    rcases horder with rfl | rfl <;> rfl
  have hsum : ∀ inner, inner = .addition ∨ inner = .subtraction →
      order.needsParens inner = decide (order = .subtraction) := by
    rintro inner (rfl | rfl) <;> rcases horder with rfl | rfl <;> rfl
  cases negated with
  | true =>
    change (if order.needsParens .unaryNegation then _ else
      if delta ≠ 0 then "-(" ++ indexSum index delta ++ ")" else "-" ++ indexSum index delta) = _
    rw [hsigned, if_neg Bool.false_ne_true]
    by_cases hzero : delta = 0
    · rw [hzero]
      rfl
    · simp only [hzero, ne_eq, not_false_eq_true, if_true, if_false, ← String.append_assoc]
      rfl
  | false =>
    by_cases hpos : 0 < delta
    · have hne : delta ≠ 0 := by omega
      simp [Site.adjustedCode, indexSum, hpos, hne, hsum .addition (Or.inl rfl)]
    · by_cases hneg : delta < 0
      · have hne : delta ≠ 0 := by omega
        simp [Site.adjustedCode, indexSum, hpos, hneg, hne, hsum .subtraction (Or.inr rfl)]
      · have hzero : delta = 0 := by omega
        simp [Site.adjustedCode, indexSum, hzero]

/-- An integer, or its negation. -/
def Site.signed (negated : Bool) (n : Int) : Int :=
  if negated then -n else n

@[simp]
theorem Site.signed_false (n : Int) : Site.signed false n = n := rfl

/-- Code that adjusts an index comes to the adjusted integer, and is no sum behind a minus sign. -/
theorem adjustedCode_amount (h : ComesTo env e n) (horder : order = .none ∨ order = .subtraction) :
    let code := Order.wrap e.1 (Site.indexSlot delta negated order) e.2
    amount env (Site.adjustedCode code delta negated order) =
        some (Site.signed negated (n + delta)) ∧
      (order = .subtraction → Operand 5 (Site.adjustedCode code delta negated order)) := by
  intro code
  have hcode : amount env code = some n := (amount_wrap h.operand _ _).trans h.amount
  have hoperand : Operand (Site.indexSlot delta negated order).rank code := operand_wrap h.operand _
  obtain ⟨hsum, hloose⟩ := amount_indexSum hoperand hcode
  rw [adjustedCode_eq _ _ _ horder, Site.signed]
  cases negated with
  | true =>
    have hgroup : Operand 4 (if delta = 0 then code else "(" ++ indexSum code delta ++ ")") ∧
        amount env (if delta = 0 then code else "(" ++ indexSum code delta ++ ")") =
          some (n + delta) := by
      by_cases hzero : delta = 0
      · rw [if_pos hzero, hcode, hzero, Int.add_zero]
        rw [hzero] at hoperand
        exact ⟨hoperand, rfl⟩
      · rw [if_neg hzero, amount_parens (hloose hzero), hsum]
        exact ⟨(operand_parens (hloose hzero)).mono (Nat.zero_le 4), rfl⟩
    rw [if_pos rfl, if_pos rfl, amount_neg (hgroup.1.mono (by decide)), hgroup.2]
    exact ⟨rfl, fun _ => (hgroup.1.minus (Nat.le_refl 4)).mono (by decide)⟩
  | false =>
    rw [if_neg Bool.false_ne_true, if_neg Bool.false_ne_true]
    split
    · rename_i hparens
      rw [amount_parens (hloose hparens.2), hsum]
      exact ⟨rfl, fun _ => (operand_parens (hloose hparens.2)).mono (Nat.zero_le 5)⟩
    · rename_i hbare
      refine ⟨hsum, fun hsubtraction => ?_⟩
      have hzero : delta = 0 := by
        by_contra hne
        exact hbare ⟨hsubtraction, hne⟩
      have hwrap := operand_wrap_subtraction h.operand
      have hslot : Site.indexSlot delta false order = .subtraction := by
        rw [hzero]
        exact hsubtraction
      rw [← hslot] at hwrap
      rw [hzero]
      exact hwrap

/-- A literal that is adjusted comes to the adjusted integer. -/
theorem foldedIndex_amount {text : String} (h : ComesTo env e n)
    (hplain : Numeral.isPlain e.1 = true) (hfolded : Site.foldedIndex e.1 delta negated = .ok text) :
    amount env text = some (Site.signed negated (n + delta)) ∧ Operand 5 text := by
  rw [Site.foldedIndex, h.plain hplain] at hfolded
  have htext : toString (Site.signed negated (n + delta)) = text := by
    cases negated <;> exact Except.ok.inj hfolded
  rw [← htext]
  exact ⟨amount_toString_int _, operand_toString_int_five _⟩

end

/-- The integer at which indices begin in the settings. -/
def Options.indexBase (o : Options) : Int :=
  if o.isOneBased then 1 else 0

/-- The default of an index. -/
def Options.firstIndex (o : Options) : String :=
  if o.isOneBased then "1" else "0"

namespace Site

variable {o : Options} {site : Site} {slot text : String} {delta : Int} {negated : Bool}
  {order : Order} {p q : Pass}

/-- An index expression that is adjusted: a literal at once, any other one by code around it. -/
def adjusted (e : Expression) (delta : Int) (negated : Bool) (order : Order) : Gen String :=
  let code := Order.wrap e.1 (indexSlot delta negated order) e.2
  if Numeral.isPlain code then Gen.lift (foldedIndex code delta negated)
  else return adjustedCode code delta negated order

/-- A rule adjusts what the slot of an index supplies. -/
theorem adjustedIndex_apply (site : Site) (slot : String) (delta : Int) (negated : Bool)
    (order : Order) (o : Options) (p : Pass) :
    site.adjustedIndex slot delta negated order o p = (do
      let e ← site.supplied slot o.firstIndex
      adjusted e (delta - o.indexBase) negated order : Gen String) o p := by
  have hshift : (if o.isOneBased = true then delta - 1 else delta) = delta - o.indexBase := by
    rw [Options.indexBase]
    split <;> omega
  have hbind : (do
        let code ← site.valueOr slot (indexSlot (delta - o.indexBase) negated order) o.firstIndex
        if Numeral.isPlain code then Gen.lift (foldedIndex code (delta - o.indexBase) negated)
        else return adjustedCode code (delta - o.indexBase) negated order : Gen String) = (do
        let e ← site.supplied slot o.firstIndex
        adjusted e (delta - o.indexBase) negated order) := by
    rw [valueOr_eq, bind_assoc]
    simp only [pure_bind]
    rfl
  rw [← hbind, ← hshift, adjustedIndex, Gen.bind_apply, Gen.options_apply]
  rfl

/-- Both ways to adjust an index come to the adjusted integer. -/
theorem adjusted_amount {e : Expression} (horder : order = .none ∨ order = .subtraction)
    (hrun : adjusted e delta negated order o p = .ok text q) :
    p = q ∧ ∀ env n, ComesTo env e n →
      amount env text = some (signed negated (n + delta)) ∧
        (order = .subtraction → Operand 5 text) := by
  by_cases hplain : Numeral.isPlain (Order.wrap e.1 (indexSlot delta negated order) e.2) = true
  · have hbare : Order.wrap e.1 (indexSlot delta negated order) e.2 = e.1 :=
      eq_of_isPlain_wrap hplain
    rw [hbare] at hplain
    simp only [adjusted, hbare, hplain, if_true] at hrun
    cases hfolded : foldedIndex e.1 delta negated with
    | error fault =>
      rw [hfolded] at hrun
      cases hrun
    | ok folded =>
      rw [hfolded] at hrun
      obtain ⟨rfl, rfl⟩ := EStateM.Result.ok.inj hrun
      exact ⟨rfl, fun env n hcomes =>
        (foldedIndex_amount hcomes hplain hfolded).imp_right fun hoperand _ => hoperand⟩
  · simp only [adjusted, hplain] at hrun
    obtain ⟨rfl, rfl⟩ := EStateM.Result.ok.inj hrun
    exact ⟨rfl, fun env n hcomes => adjustedCode_amount hcomes horder⟩

/-- What a rule writes for an index comes to the index that its slot supplies, counted from zero and
    with what the rule adds. -/
theorem adjustedIndex_amount (horder : order = .none ∨ order = .subtraction)
    (hrun : site.adjustedIndex slot delta negated order o p = .ok text q) :
    ∃ e, site.supplied slot o.firstIndex o p = .ok e q ∧
      ∀ env n, ComesTo env e n →
        amount env text = some (signed negated (n - o.indexBase + delta)) ∧
          (order = .subtraction → Operand 5 text) := by
  rw [adjustedIndex_apply] at hrun
  obtain ⟨e, p', hsupplied, hadjusted⟩ := Gen.bind_eq_ok hrun
  obtain ⟨rfl, hamount⟩ := adjusted_amount horder hadjusted
  refine ⟨e, hsupplied, fun env n hcomes => ?_⟩
  have hshift : n - o.indexBase + delta = n + (delta - o.indexBase) := by omega
  rw [hshift]
  exact hamount env n hcomes

/-- An index that comes to an integer can be adjusted. -/
theorem adjustedIndex_succeeds {e : Expression} {env : Integers} {n : Int}
    (hsupplied : site.supplied slot o.firstIndex o p = .ok e q) (hcomes : ComesTo env e n) :
    ∃ text, site.adjustedIndex slot delta negated order o p = .ok text q := by
  rw [adjustedIndex_apply, Gen.bind_apply, hsupplied]
  generalize delta - o.indexBase = shift
  by_cases hplain : Numeral.isPlain (Order.wrap e.1 (indexSlot shift negated order) e.2) = true
  · have hbare : Order.wrap e.1 (indexSlot shift negated order) e.2 = e.1 :=
      eq_of_isPlain_wrap hplain
    rw [hbare] at hplain
    simp only [adjusted, hbare, hplain, if_true, foldedIndex, hcomes.plain hplain]
    exact ⟨_, rfl⟩
  · simp only [adjusted, hplain]
    exact ⟨_, rfl⟩

end Site

end BlockScript
