/-
  BlockScript.Proofs.Index.Adjustment

  Adjusted indices as arithmetic. Whatever an index slot holds, the code that a rule writes for it
  comes to the integer of the slot, moved by what the rule and the index base add and negated if the
  rule asks for it, and it still does behind a minus sign.
-/
import BlockScript.Proofs.Generate.Composed
import BlockScript.Proofs.Substring.Index

namespace BlockScript

open Script

/-! ## Passes -/

/-- A pass in progress stays in progress. -/
theorem Pass.isInvariant_isActive : Pass.IsInvariant fun p => p.isActive = true where
  record _ _ h := h
  name _ _ _ h := h
  provide _ _ _ _ h := h
  define _ _ _ h := h

theorem Block.isActive_of_code {o : Options} {p q : Pass} {b : Block} {attached alone : Bool}
    {code : Code} (hp : p.isActive = true) (hrun : b.code attached alone o p = .ok code q) :
    q.isActive = true := by
  have hafter := (b.code_composed attached alone).keeps (o := o) Pass.isInvariant_isActive p hp
  rwa [Gen.passAfter_of_ok hrun] at hafter

/-! ## Index inputs -/

namespace Block

/-- A block that is the literal of an integer: its number, of whatever form, is written as it. -/
structure IsInteger (c : Block) (n : Int) : Prop where
  kind : c.head.kind = .value .number
  enabled : c.head.enabled = true
  output : c.head.hasOutput = true
  number : ∃ literal, Site.numberOf ((c.head.fields.get? "NUM").getD (.num (.int 0))) = .ok literal ∧
    literal.numeral = toString n

/-- What an index slot of a block holds, by the integer that it comes to: nothing or a block that is
    passed over, where the first index stands in; the literal of an integer; or values whose code is
    no numeral, as an expression. -/
inductive IndexInput (env : Integers) (o : Options) (p : Pass) (b : Block) (slot : String) :
    Int → Prop
  | missing (hslot : inSlot b.values slot = none) : IndexInput env o p b slot o.indexBase
  | passedOver {c : Block} {q : Pass} (hslot : inSlot b.values slot = some c)
      (hrun : c.code true false o p = .ok (.statement "") q) : IndexInput env o p b slot o.indexBase
  | literal {c : Block} {q : Pass} {n : Int} (hslot : inSlot b.values slot = some c)
      (hliteral : c.IsInteger n) (hnext : (c.site true).nextCode o p = .ok (.statement "") q) :
      IndexInput env o p b slot n
  | expression {c : Block} {q : Pass} {text : String} {order : Order} {n : Int}
      (hslot : inSlot b.values slot = some c) (hvalues : c.ValueChain)
      (hrun : c.code true false o p = .ok (.expression text order) q)
      (hplain : Numeral.isPlain text = false) (hamount : amount env text = some n) :
      IndexInput env o p b slot n

variable {env : Integers} {o : Options} {p q : Pass} {b c : Block} {slot : String} {n : Int}

/-- The code of the literal of an integer, if nothing that yields code follows it. -/
theorem IsInteger.code_eq (h : c.IsInteger n) (hp : p.isActive = true)
    (hnext : (c.site true).nextCode o p = .ok (.statement "") q) :
    c.code true false o p =
      .ok (.expression (toString n) (if 0 ≤ n then .atomic else .unaryNegation)) q := by
  obtain ⟨literal, hliteral, hnumeral⟩ := h.number
  have hrule : (c.site true).expression .number =
      pure (toString n, if 0 ≤ n then .atomic else .unaryNegation) := by
    change (c.site true).number = _
    rw [Site.number, show Site.numberOf (((c.site true).head.fields.get? "NUM").getD
      (.num (.int 0))) = .ok literal from hliteral]
    simp [hnumeral, isNonneg_of_numeral hnumeral]
  exact code_of_expression h.kind h.enabled h.output hrule hp hnext

/-- What a slot supplies is what the block there yields, if it yields an expression. -/
theorem supplied_of_expression {attached : Bool} {default text : String} {order : Order}
    (hslot : inSlot b.values slot = some c)
    (hrun : c.code true false o p = .ok (.expression text order) q) (hne : text ≠ "") :
    (b.site attached).supplied slot default o p = .ok (text, order) q := by
  have hinput : Site.inSlot (b.site attached).values slot = _ := inSlot_inputs b.values slot
  rw [Site.supplied, hinput, hslot]
  change (c.code true false >>= _) o p = _
  rw [Gen.bind_apply, hrun]
  simp only [hne, if_false]
  rfl

/-- The default of an index is the first one. -/
theorem comesTo_firstIndex (env : Integers) (o : Options) :
    ComesTo env (o.firstIndex, .atomic) o.indexBase := by
  rw [Options.firstIndex, Options.indexBase]
  split
  · exact comesTo_toString env 1
  · exact comesTo_toString env 0

/-- What an index slot holds is supplied as an expression that comes to its integer. -/
theorem IndexInput.supplied {lead : String} (hlead : KeepsNames lead)
    (hp : p.Reachable (some lead)) (hactive : p.isActive = true)
    (h : b.IndexInput env o p slot n) (attached : Bool) :
    ∃ e q, (b.site attached).supplied slot o.firstIndex o p = .ok e q ∧ ComesTo env e n := by
  have hinput : Site.inSlot (b.site attached).values slot = _ := inSlot_inputs b.values slot
  have hmissing : ∀ p' : Pass, p'.isActive = true → ∃ q,
      (b.site attached).missingInput slot o.firstIndex o p' = .ok (o.firstIndex, .atomic) q := by
    intro p' hp'
    rw [Site.missingInput, Gen.bind_apply, Gen.record, Gen.onPass_apply _ hp']
    exact ⟨_, rfl⟩
  cases h with
  | missing hslot =>
    obtain ⟨q, hdefault⟩ := hmissing p hactive
    rw [Site.supplied, hinput, hslot]
    exact ⟨_, q, hdefault, comesTo_firstIndex env o⟩
  | @passedOver c q hslot hrun =>
    obtain ⟨q', hdefault⟩ := hmissing q (isActive_of_code hactive hrun)
    rw [Site.supplied, hinput, hslot]
    refine ⟨_, q', ?_, comesTo_firstIndex env o⟩
    change (c.code true false >>= _) o p = _
    rw [Gen.bind_apply, hrun]
    exact hdefault
  | @literal c q _ hslot hliteral hnext =>
    have hrun := hliteral.code_eq hactive hnext
    exact ⟨_, q, supplied_of_expression hslot hrun (operand_toString_int n).ne_empty,
      comesTo_toString env n⟩
  | @expression c q text order _ hslot hvalues hrun hplain hamount =>
    obtain ⟨-, hfits⟩ := hvalues.code_allows hlead true false (Or.inl rfl) p _ q hp.named hrun
    have hoperand : Operand order.rank text := hfits
    refine ⟨(text, order), q, supplied_of_expression hslot hrun hoperand.ne_empty,
      hoperand, hamount, fun h => ?_⟩
    rw [hplain] at h
    cases h

/-! ## Adjusted indices -/

/-- An adjusted index is always written, if the pass is in progress and its prefix for variables
    keeps names. It comes to the index, counted from zero, with what the rule adds, or to the negation
    of that; and behind a minus sign the whole comes to the difference. -/
theorem adjustedIndex_denotes {lead : String} (hlead : KeepsNames lead)
    (hp : p.Reachable (some lead)) (hactive : p.isActive = true)
    (h : b.IndexInput env o p slot n) (attached : Bool) (delta : Int) (negated : Bool)
    {order : Order} (horder : order = .none ∨ order = .subtraction) :
    ∃ text q, (b.site attached).adjustedIndex slot delta negated order o p = .ok text q ∧
      amount env text =
        some (if negated then -(n + (delta - o.indexBase)) else n + (delta - o.indexBase)) ∧
      (order = .subtraction → ∀ minuend l, Operand 6 minuend → amount env minuend = some l →
        amount env (minuend ++ " - " ++ text) =
          some (l - if negated then -(n + (delta - o.indexBase)) else n + (delta - o.indexBase))) := by
  obtain ⟨e, q, hsupplied, hcomes⟩ := h.supplied hlead hp hactive attached
  obtain ⟨text, hrun⟩ : ∃ text, (b.site attached).adjustedIndex slot delta negated order o p =
      .ok text q := Site.adjustedIndex_succeeds hsupplied hcomes
  obtain ⟨e', hsupplied', hamount⟩ := Site.adjustedIndex_amount horder hrun
  obtain ⟨rfl, -⟩ := EStateM.Result.ok.inj (hsupplied'.symm.trans hsupplied)
  obtain ⟨htext, hoperand⟩ := hamount env n hcomes
  have hshift : n - o.indexBase + delta = n + (delta - o.indexBase) := by omega
  rw [hshift, Site.signed] at htext
  refine ⟨text, q, hrun, htext, ?_⟩
  intro hsubtraction minuend l hminuend hl
  exact amount_minus hminuend (hoperand hsubtraction) hl htext

end Block

/-- A character of a variable, counted from the end. -/
def charFromEnd (index : Block) : Block :=
  .mk ⟨.value .charAt, "char", [(.str "WHERE", .str "FROM_END")], .null, .bool true, true, []⟩
    [("VALUE", some (.mk ⟨.value .getVariable, "text", [(.str "VAR", .str "x")], .null, .bool true,
      true, []⟩ [] [] none)), ("AT", some index)] [] none

/-- A variable for an index. -/
def indexVariable : Block :=
  .mk ⟨.value .getVariable, "index", [(.str "VAR", .str "i")], .null, .bool true, true, []⟩ [] [] none

/-- What the index is where its variable is seven. -/
def sevenAtIndex : Integers := fun ts => if ts = [.word "i"] then some 7 else none

theorem adjustedIndex_denotes_variable :
    ∃ text q, ((charFromEnd indexVariable).site true).adjustedIndex "AT" 3 true .subtraction .default
        (.start (.new reservedWords (some "")) []) = .ok text q ∧
      amount sevenAtIndex text = some (-9) ∧
      amount sevenAtIndex ("20 - " ++ text) = some 29 := by
  obtain ⟨p, hstart⟩ : ∃ p : Pass, p = .start (.new reservedWords (some "")) [] := ⟨_, rfl⟩
  have hprefix : (NameTable.new reservedWords (some "")).variablePrefix? = some "" := rfl
  have hp : p.Reachable (some "") := hstart ▸ .start hprefix []
  have hvalues : indexVariable.ValueChain :=
    .mk rfl (fun name c hc => absurd hc List.not_mem_nil) fun c hc => by cases hc
  obtain ⟨q, hrun⟩ : ∃ q, indexVariable.code true false .default p =
      .ok (.expression "i" .atomic) q := hstart ▸ ⟨_, by with_unfolding_all rfl⟩
  have hseven : amount sevenAtIndex "i" = some 7 := by
    have htokens : tokens "i" = [.word "i"] := by decide
    rw [amount, htokens, value_summand (by decide)]
    rfl
  have hindex : (charFromEnd indexVariable).IndexInput sevenAtIndex .default p "AT" 7 :=
    .expression rfl hvalues hrun (by decide) hseven
  obtain ⟨text, q', htext, hamount, hdifference⟩ := Block.adjustedIndex_denotes keepsNames_empty hp
    (hstart ▸ rfl) hindex true 3 true (Or.inr rfl)
  have htwenty : Operand 6 "20" := by decide
  exact ⟨text, q', hstart ▸ htext, hamount,
    hdifference rfl "20" 20 htwenty (amount_toString 20)⟩

end BlockScript
