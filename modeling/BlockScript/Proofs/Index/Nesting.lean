/-
  BlockScript.Proofs.Index.Nesting

  Adjusted indices in the slot of an order. Whatever is read, moved and negated, all operators that
  the code of an adjusted index exposes may stand in the slot without parentheses, except for the
  sign of a folded negative numeral, which gets no parentheses in any slot.
-/
import BlockScript.Proofs.Expression.Nesting
import BlockScript.Proofs.Index.Folding

namespace BlockScript

open Script
open Gen (Allows)

variable {o : Options} {P : Order → Bool}

/-! ## Indices adjusted by code -/

theorem exposes_toString {n : Int} (hn : 0 ≤ n) : Exposes P (toString n) := by
  obtain ⟨k, rfl⟩ := Int.eq_ofNat_of_zero_le hn
  exact exposes_unsigned (isUnsigned_toString k)

/-- The class of the sum of an index and an integer. -/
def sumOrder (delta : Int) : Order :=
  if 0 < delta then .addition else .subtraction

/-- The sum of an index and an integer exposes what its class covers. -/
theorem exposes_indexSum {index : String} {delta : Int} {negated : Bool} {order : Order}
    (hdelta : delta ≠ 0) (h : Exposes (Site.indexSlot delta negated order).admits index) :
    Exposes (sumOrder delta).covers (Reading.Fits.indexSum index delta) := by
  rw [Site.indexSlot] at h
  rw [sumOrder, Reading.Fits.indexSum]
  by_cases hpos : 0 < delta
  · have hplus : Between 6 " + " := by decide
    rw [if_pos hpos] at h
    rw [if_pos hpos, if_pos hpos]
    exact (h.mono fun _ _ => Order.covers_of_admits).between hplus (by decide)
      (exposes_toString (Int.le_of_lt hpos))
  · have hneg : delta < 0 := by omega
    have hminus : Between 6 " - " := by decide
    rw [if_neg hpos, if_pos hneg] at h
    rw [if_neg hpos, if_neg hpos, if_pos hneg]
    exact (h.mono fun _ _ => Order.covers_of_admits).between hminus (by decide)
      (exposes_toString (by omega))

/-- An index that is adjusted by code exposes only operators that the slot admits, if the slot in
    which it is read admits those of the index. -/
theorem exposes_adjustedCode {index : String} {delta : Int} {negated : Bool} {order : Order}
    (h : Exposes (Site.indexSlot delta negated order).admits index) :
    Exposes order.admits (Site.adjustedCode index delta negated order) := by
  by_cases hdelta : delta = 0
  · subst hdelta
    cases negated with
    | false => exact h
    | true =>
      have hsigned : Exposes Order.unaryNegation.covers ("-" ++ index) :=
        (h.mono fun _ _ => Order.covers_of_admits).minus rfl
      exact exposes_parens_if hsigned order
  · have hsum := exposes_indexSum hdelta h
    cases negated with
    | false =>
      have hcode := exposes_parens_if hsum order
      rw [sumOrder, Reading.Fits.indexSum] at hcode
      rw [Site.adjustedCode]
      by_cases hpos : 0 < delta
      · simpa only [hpos, if_true, Bool.not_false, Bool.false_eq_true, if_false] using hcode
      · have hneg : delta < 0 := by omega
        simpa only [hpos, hneg, if_true, Bool.not_false, Bool.false_eq_true, if_false] using hcode
    | true =>
      have hopens : Opens 4 .round "-(" := by decide
      have hsigned : Exposes Order.unaryNegation.covers
          ("-(" ++ Reading.Fits.indexSum index delta ++ ")") :=
        .enclose hopens (by decide) hsum.operand.enclosed (by decide) (by decide)
      have hcode := exposes_parens_if hsigned order
      rw [Reading.Fits.indexSum] at hcode
      rw [Site.adjustedCode]
      simpa only [hdelta, Bool.not_true, Bool.false_eq_true, if_false, if_true, ne_eq,
        not_false_eq_true] using hcode

/-! ## Folded indices -/

/-- A minus sign at the beginning of a text is a prefix. -/
theorem unaryNegation_mem {text : String} (hsign : text.toList.head? = some '-') :
    .unaryNegation ∈ operatorsFrom ⟨[], false⟩ (tokens text) := by
  obtain ⟨rest, hrest⟩ := List.head?_eq_some_iff.mp hsign
  have htext : text = "-" ++ String.ofList rest := String.toList_injective (by simp [hrest])
  have hminus : tokens "-" = [.symbol .minus] := by decide
  rw [htext, tokens_append (by decide) (seam_minus _), hminus]
  exact List.mem_cons_self

theorem admits_unaryNegation_iff (order : Order) :
    order.admits .unaryNegation = true ↔ 4 < order.rank := by
  cases order <;> decide

/-- A numeral exposes its sign, if it has one. -/
theorem operatorsFrom_numeral (n : Number) :
    operatorsFrom ⟨[], false⟩ (tokens n.numeral) =
      if n.numeral.toList.head? = some '-' then [.unaryNegation] else [] := by
  obtain ⟨t, ht, hnumeral⟩ := numeral_cases n
  have hexposes : Exposes (fun _ => false) t := ht.elim exposes_name exposes_unsigned
  have hnone : operatorsFrom ⟨[], false⟩ (tokens t) = [] :=
    List.eq_nil_iff_forall_not_mem.mpr fun op hop => Bool.false_ne_true (hexposes.all op hop)
  have hhead : t.toList.head? ≠ some '-' := by
    intro hsign
    have hmem := unaryNegation_mem hsign
    rw [hnone] at hmem
    cases hmem
  rcases hnumeral with ⟨heq, -⟩ | ⟨-, heq⟩
  · rw [heq, hnone, if_neg hhead]
  · have hminus : tokens "-" = [.symbol .minus] := by decide
    have hsign : ("-" ++ t).toList.head? = some '-' := by
      rw [String.toList_append]
      rfl
    rw [heq, if_pos hsign, tokens_append (by decide) (seam_minus t), hminus]
    exact congrArg (Order.unaryNegation :: ·) hnone

/-! ## Index inputs -/

/-- An adjusted index exposes only operators that the slot of its order admits, or it is a
    numeral. -/
theorem adjustedIndex_exposes {lead : String} (hlead : KeepsNames lead) {b : Block} {slot : String}
    (hslot : ∀ c, Block.inSlot b.values slot = some c → c.ValueChain) (attached : Bool)
    (delta : Int) (negated : Bool) (order : Order) :
    Allows o (Pass.Named (some lead)) ((b.site attached).adjustedIndex slot delta negated order)
      fun text => Exposes order.admits text ∨ ∃ n : Number, text = n.numeral := by
  have hrecord : ∀ entry, Allows o (Pass.Named (some lead)) (Gen.record entry) fun _ => True :=
    Gen.record_allows fun p entry hp => hp.record entry
  have hvalue : ∀ outer, Allows o (Pass.Named (some lead)) ((b.site attached).value slot outer)
      ((slotReading FitsSlot).slot slot outer) := by
    refine fun outer => (slot_yields (fitsOrder_kept o) hlead hslot attached outer).mono ?_
    rintro _ (⟨rfl, -⟩ | ⟨c, inner, order, -, hinner, rfl⟩)
    · exact Or.inl rfl
    · exact Or.inr ((fitsOrder_kept o).wrap (b := c) hinner outer)
  refine (Site.adjustedIndex_allows hrecord hvalue delta negated order).mono ?_
  rintro text ⟨code, hcode, ⟨-, hfolded⟩ | ⟨-, rfl⟩⟩
  · exact Or.inr (Site.exists_numeral_of_foldedIndex hfolded)
  · refine Or.inl (exposes_adjustedCode (slotReading_nests.exposes ?_ hcode))
    cases o.isOneBased <;> decide

/-- From every pass without a prefix that breaks names, all operators that an adjusted index exposes
    may stand without parentheses in the slot of the order that was asked for, just if the slot is
    not one of prefixes or tighter, or the index does not begin with a minus sign. One that does and
    is in such a slot is a folded numeral, which exposes nothing but its sign. -/
theorem adjustedIndex_admits {lead : String} (hlead : KeepsNames lead) {p q : Pass}
    (hp : p.Reachable (some lead)) {b : Block} {slot : String}
    (hslot : ∀ c, Block.inSlot b.values slot = some c → c.ValueChain) {attached : Bool}
    {delta : Int} {negated : Bool} {order : Order} {text : String}
    (hrun : (b.site attached).adjustedIndex slot delta negated order o p = .ok text q) :
    ∃ ops, operators text = some ops ∧
      ((∀ op ∈ ops, order.admits op = true) ↔
        ¬ (order.rank ≤ 4 ∧ text.toList.head? = some '-')) ∧
      (order.rank ≤ 4 → text.toList.head? = some '-' →
        ∃ n : Number, text = n.numeral ∧ ops = [.unaryNegation]) := by
  obtain ⟨-, hcases⟩ := adjustedIndex_exposes hlead hslot attached delta negated order p text q
    hp.named hrun
  have hoperand : Operand 99 text := by
    rcases hcases with hexposes | ⟨n, rfl⟩
    · exact hexposes.operand
    · exact (operand_numeral n).any
  refine ⟨_, hoperand.operators_eq, ⟨?_, ?_⟩, ?_⟩
  -- A minus sign at the beginning is among the operators, and only looser slots admit it.
  · rintro hall ⟨hrank, hsign⟩
    have hloose := (admits_unaryNegation_iff order).mp (hall _ (unaryNegation_mem hsign))
    omega
  · intro hnot op hop
    rcases hcases with hexposes | ⟨n, rfl⟩
    · exact hexposes.all op hop
    · -- A numeral has no other operator.
      rw [operatorsFrom_numeral] at hop
      split at hop
      · rename_i hsign
        rw [List.mem_singleton.mp hop, admits_unaryNegation_iff]
        exact Nat.lt_of_not_le fun hrank => hnot ⟨hrank, hsign⟩
      · cases hop
  · intro hrank hsign
    rcases hcases with hexposes | ⟨n, rfl⟩
    · have hloose := (admits_unaryNegation_iff order).mp
        (hexposes.all _ (unaryNegation_mem hsign))
      omega
    · exact ⟨n, rfl, by rw [operatorsFrom_numeral, if_pos hsign]⟩

/-- A variable that is counted from the end. -/
theorem adjustedIndex_admits_variable :
    ∃ text q, ((charFromEnd indexVariable).site true).adjustedIndex "AT" 3 true .subtraction
        .default (.start (.new reservedWords (some "")) []) = .ok text q ∧ text = "-(i + 2)" ∧
      ∃ ops, operators text = some ops ∧ ∀ op ∈ ops, Order.subtraction.admits op = true := by
  have hlead : (NameTable.new reservedWords (some "")).variablePrefix? = some "" := rfl
  have hp := Pass.Reachable.start hlead []
  have hslot : ∀ c, Block.inSlot (charFromEnd indexVariable).values "AT" = some c →
      c.ValueChain := by
    rintro c hc
    obtain rfl := Option.some.inj hc
    exact .mk rfl (fun name c hc => absurd hc List.not_mem_nil) fun c hc => by cases hc
  obtain ⟨q, hrun⟩ : ∃ q, ((charFromEnd indexVariable).site true).adjustedIndex "AT" 3 true
      .subtraction .default (.start (.new reservedWords (some "")) []) = .ok "-(i + 2)" q :=
    ⟨_, by with_unfolding_all rfl⟩
  obtain ⟨ops, hops, hadmits, -⟩ := adjustedIndex_admits keepsNames_empty hp hslot hrun
  have hloose : ¬ Order.subtraction.rank ≤ 4 := by decide
  exact ⟨_, q, hrun, rfl, ops, hops, hadmits.mpr fun h => hloose h.1⟩

/-- A negative folded numeral behind another sign. -/
theorem adjustedIndex_bareSign :
    ((charFromEnd (numberBlock 3)).site true).adjustedIndex "AT" 1 true .unaryNegation .default
        (.start (.new reservedWords (some "")) []) =
      .ok "-3" (.start (.new reservedWords (some "")) []) ∧
    operators "-3" = some [.unaryNegation] ∧
    Order.unaryNegation.admits .unaryNegation = false :=
  ⟨by with_unfolding_all rfl, by decide, by decide⟩

end BlockScript
