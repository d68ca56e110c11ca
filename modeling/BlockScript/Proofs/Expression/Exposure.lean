/-
  BlockScript.Proofs.Expression.Exposure

  The precedence that goes with value code bounds what the code exposes: no operator outside of its
  brackets and literals binds looser. So the parentheses of slots are enough, and code whose members
  are used or that is called exposes nothing.
-/
import BlockScript.Proofs.Expression.Operand
import BlockScript.Proofs.Generate.Reachable
import BlockScript.Proofs.Generate.ValueChain

namespace BlockScript

open Script
open Gen (Allows)

variable {o : Options}

/-! ## Slots -/

/-- Code that exposes no operator looser than its precedence; a block that is passed over has no
    text. -/
def Code.Fits : Code → Prop
  | .expression text order => Operand order.rank text
  | .statement text => text = ""

/-- Parentheses close a text for any slot. -/
theorem operand_parens {r : Nat} {text : String} (h : Operand r text) :
    Operand 0 ("(" ++ text ++ ")") := by
  have hopens : Opens 0 .round "(" := by decide
  exact hopens.enclose h.enclosed (by decide)

/-- A pair that needs no parentheses has the looser rank outside, or binds tighter inside than any
    operator. -/
theorem rank_le_of_needsParens {outer inner : Order} (h : outer.needsParens inner = false) :
    inner.rank ≤ outer.rank ∨ inner.rank < 4 := by
  rw [Order.needsParens] at h
  split at h
  · rename_i hlt
    exact Or.inl (Nat.le_of_lt hlt)
  · split at h
    · rename_i heq
      rw [Bool.and_eq_true, decide_eq_true_eq] at heq
      exact Or.inl (Nat.le_of_eq heq.1)
    · have hmem : (outer, inner) ∈ Order.bareNestings := by simpa using h
      have hall : ∀ pair ∈ Order.bareNestings, pair.2.rank ≤ pair.1.rank ∨ pair.2.rank < 4 := by
        decide
      exact hall _ hmem

/-- Code with the parentheses of a slot fits the slot. -/
theorem operand_wrap {text : String} {order : Order} (h : Operand order.rank text)
    (outer : Order) : Operand outer.rank (Order.wrap text outer order) := by
  rw [Order.wrap]
  split
  · exact (operand_parens h).mono (Nat.zero_le _)
  · rename_i hbare
    have hneeds : outer.needsParens order = false := by
      simpa [h.ne_empty] using hbare
    rcases rank_le_of_needsParens hneeds with hle | hlt
    · exact h.mono hle
    · exact (h.tighten hlt).mono (Nat.zero_le _)

/-- A prefix behind which names are names. -/
def KeepsNames (lead : String) : Prop :=
  ∀ name : String, isName name.toList = true → isName (lead ++ name).toList = true

theorem keepsNames_empty : KeepsNames "" := by
  intro name h
  rwa [String.empty_append]

/-- What the inputs and names of a block come to in a pass that keeps names behind its prefix. -/
def fittingReading : Reading where
  slot _ outer text := text = "" ∨ Operand outer.rank text
  variableName _ emitted := isName emitted.toList = true
  procedureName _ emitted := isName emitted.toList = true
  helperName _ emitted := isName emitted.toList = true

theorem fittingReading_fits : fittingReading.Fits where
  slot h := h
  variableName h := h
  procedureName h := h
  helperName h := h

/-- What the inputs and names of a block come to in such a pass, if the texts in its slots are of one
    sort for each precedence. -/
def slotReading (S : Order → String → Prop) : Reading where
  slot _ outer text := text = "" ∨ S outer text
  variableName _ emitted := isName emitted.toList = true
  procedureName _ emitted := isName emitted.toList = true
  helperName _ emitted := isName emitted.toList = true

theorem slotReading_sound {lead : String} (hlead : KeepsNames lead) {S : Order → String → Prop}
    {Q : Code → Prop} (hwrap : ∀ text order outer, Q (.expression text order) →
      S outer (Order.wrap text outer order)) {site : Site}
    (hvalue : ∀ name input, Site.inSlot site.values name = some input →
      Allows o (Pass.Named (some lead)) input.code Q) :
    (slotReading S).Sound o (Pass.Named (some lead)) site where
  record := Gen.record_allows fun p entry hp => hp.record entry
  value name outer := Site.value_allows (hvalue name) (fun _ => Or.inl rfl) (fun _ => Or.inl rfl)
    fun text order h => Or.inr (hwrap text order outer h)
  variableName name := (Gen.variableName_allows name).mono fun emitted h => by
    obtain ⟨candidate, hname, rfl⟩ := h
    exact hlead candidate hname
  procedureName := Gen.procedureName_allows
  helper name template _ := Gen.helper_allows name template

theorem fittingReading_sound {lead : String} (hlead : KeepsNames lead) {site : Site}
    (hvalue : ∀ name input, Site.inSlot site.values name = some input →
      Allows o (Pass.Named (some lead)) input.code Code.Fits) :
    fittingReading.Sound o (Pass.Named (some lead)) site :=
  slotReading_sound hlead (fun _ _ outer h => operand_wrap h outer) hvalue

/-! ## Blocks -/

/-- The code of a tree of values exposes no operator that is looser than its precedence. -/
theorem Block.ValueTree.code_allows {lead : String} (hlead : KeepsNames lead) {b : Block}
    (h : b.ValueTree) : ∀ attached alone, attached = true ∨ b.nestedComments = [] →
      Allows o (Pass.Named (some lead)) (b.code attached alone) Code.Fits := by
  have hrecord : ∀ entry, Allows o (Pass.Named (some lead)) (Gen.record entry) fun _ => True :=
    Gen.record_allows fun p entry hp => hp.record entry
  have hempty : Code.Fits (.statement "") := rfl
  apply h.code_allows_of hrecord hempty
  intro site kind hvalue
  apply (Site.expression_writes (fittingReading_sound hlead hvalue) kind).mono
  exact fun e he => he.operand fittingReading_fits

/-- A property that the rules keep: what they write has it, if the texts in the slots are of the sort
    that expressions with the property are behind the parentheses of a slot. A block that is passed
    over has it from the block behind. -/
structure IsKeptByRules (o : Options) (S : Order → String → Prop)
    (E : Block → String → Order → Prop) : Prop where
  wrap : ∀ {b text order}, E b text order → ∀ outer, S outer (Order.wrap text outer order)
  passed : ∀ {b c text order}, b.head.enabled = false → E c text order → E b text order
  written : ∀ {b attached kind text order}, b.head.kind = .value kind → b.head.enabled = true →
    Written (slotReading S) o (b.site attached) kind text order → E b text order

/-- Code with a property as an expression, or no text, as from a block that is passed over. -/
def Code.Yields (E : String → Order → Prop) (passed : Prop) : Code → Prop
  | .expression text order => E text order
  | .statement text => text = "" ∧ passed

section

variable {S : Order → String → Prop} {E : Block → String → Order → Prop} {lead : String}

/-- The code of values some of which follow others has every property that the rules keep. -/
theorem Block.ValueChain.yields (hkept : IsKeptByRules o S E) (hlead : KeepsNames lead) {b : Block}
    (h : b.ValueChain) : ∀ attached alone, attached = true ∨ b.nestedComments = [] →
      Allows o (Pass.Named (some lead)) (b.code attached alone)
        (Code.Yields (E b) (alone = true ∨ b.head.enabled = false)) := by
  have hrecord : ∀ entry, Allows o (Pass.Named (some lead)) (Gen.record entry) fun _ => True :=
    Gen.record_allows fun p entry hp => hp.record entry
  intro attached alone hcomments
  refine (h.code_allows_of (Q := fun b => Code.Yields (E b) (b.head.enabled = false)) hrecord
    (fun _ hdisabled _ => ⟨rfl, hdisabled⟩) (fun _ _ h => h.1) ?_ ?_ attached alone hcomments).mono ?_
  · intro b c code hdisabled _ hcode
    cases code with
    | expression text order => exact hkept.passed hdisabled hcode
    | statement text => exact ⟨hcode.1, hdisabled⟩
  · intro b attached kind hkind henabled hvalue
    have hsound : (slotReading S).Sound o (Pass.Named (some lead)) (b.site attached) := by
      refine slotReading_sound (Q := Code.Yields (fun text order => ∃ c, E c text order) True)
        hlead ?_ ?_
      · rintro text order outer ⟨c, hc⟩
        exact hkept.wrap hc outer
      · intro name input hinput
        change Site.inSlot (inputs b.values) name = some input at hinput
        rw [inSlot_inputs, Option.map_eq_some_iff] at hinput
        obtain ⟨c, hc, rfl⟩ := hinput
        refine (hvalue name c hc).mono fun code hcode => ?_
        cases code with
        | expression text order => exact ⟨c, hcode⟩
        | statement text => exact ⟨hcode.1, trivial⟩
    exact (Site.expression_writes hsound kind).mono fun e he => hkept.written hkind henabled he
  · rintro code (hyields | ⟨halone, rfl⟩)
    · cases code with
      | expression text order => exact hyields
      | statement text => exact ⟨hyields.1, Or.inr hyields.2⟩
    · exact ⟨rfl, Or.inl halone⟩

/-- A slot gives the code of the block there with the parentheses of the slot; it gives nothing only
    if the block there is passed over. -/
theorem slot_yields (hkept : IsKeptByRules o S E) (hlead : KeepsNames lead) {owner : Block}
    {name : String} (h : ∀ c, Block.inSlot owner.values name = some c → c.ValueChain)
    (attached : Bool) (outer : Order) :
    Allows o (Pass.Named (some lead)) ((owner.site attached).value name outer) fun text =>
      text = "" ∧ (∀ c, Block.inSlot owner.values name = some c → c.head.enabled = false) ∨
      ∃ c inner order, Block.inSlot owner.values name = some c ∧ E c inner order ∧
        text = Order.wrap inner outer order := by
  refine Site.value_allows (Q := Code.Yields
    (fun inner order => ∃ c, Block.inSlot owner.values name = some c ∧ E c inner order)
    (∀ c, Block.inSlot owner.values name = some c → c.head.enabled = false)) ?_ ?_
    (fun h => Or.inl h) ?_
  · intro input hinput
    change Site.inSlot (Block.inputs owner.values) name = some input at hinput
    rw [Block.inSlot_inputs, Option.map_eq_some_iff] at hinput
    obtain ⟨c, hc, rfl⟩ := hinput
    refine ((h c hc).yields hkept hlead true false (Or.inl rfl)).mono fun code hcode => ?_
    cases code with
    | expression text order => exact ⟨c, hc, hcode⟩
    | statement text =>
      refine ⟨hcode.1, fun c' hc' => ?_⟩
      obtain rfl := Option.some.inj (hc.symm.trans hc')
      exact hcode.2.resolve_left Bool.false_ne_true
  · intro hnone
    change Site.inSlot (Block.inputs owner.values) name = none at hnone
    rw [Block.inSlot_inputs, Option.map_eq_none_iff] at hnone
    refine Or.inl ⟨rfl, fun c hc => ?_⟩
    rw [hnone] at hc
    cases hc
  · rintro inner order ⟨c, hc, hinner⟩
    exact Or.inr ⟨c, inner, order, hc, hinner, rfl⟩

end

/-- So does that of values some of which follow others. -/
theorem Block.ValueChain.code_allows {lead : String} (hlead : KeepsNames lead) {b : Block}
    (h : b.ValueChain) : ∀ attached alone, attached = true ∨ b.nestedComments = [] →
      Allows o (Pass.Named (some lead)) (b.code attached alone) Code.Fits := by
  have hkept : IsKeptByRules o (fun outer text => Operand outer.rank text)
      fun _ text order => Operand order.rank text :=
    ⟨operand_wrap, fun _ h => h, fun _ _ h => h.operand fittingReading_fits⟩
  intro attached alone hcomments
  refine (h.yields hkept hlead attached alone hcomments).mono fun code hcode => ?_
  cases code with
  | expression text order => exact hcode
  | statement text => exact hcode.1

/-- What a value slot with a tree of values gives fits the slot, if it is not empty. -/
theorem value_allows_fits {lead : String} (hlead : KeepsNames lead) {owner : Block} {name : String}
    (h : ∀ c, (name, some c) ∈ owner.values → c.ValueTree) (attached : Bool) (outer : Order) :
    Allows o (Pass.Named (some lead)) ((owner.site attached).value name outer)
      fun text => text = "" ∨ Operand outer.rank text := by
  refine Site.value_allows (Q := Code.Fits) ?_ (fun _ => Or.inl rfl) (fun _ => Or.inl rfl)
    fun text order htext => Or.inr (operand_wrap htext outer)
  intro input hinput
  change Site.inSlot (Block.inputs owner.values) name = some input at hinput
  rw [Block.inSlot_inputs, Option.map_eq_some_iff] at hinput
  obtain ⟨c, hc, rfl⟩ := hinput
  exact (h c (Block.mem_of_inSlot hc)).code_allows hlead true false (Or.inl rfl)

/-- From every pass without a prefix for variables, the precedence that goes with the code of a tree
    of values bounds the operators that the code exposes, the precedence of a slot those of the code
    in it, and a slot whose code is called or has its members used exposes none. -/
theorem exposed_code {p : Pass} (hp : p.Reachable (some "")) :
    (∀ (b : Block) (attached alone : Bool) (text : String) (order : Order) (p' : Pass),
      b.ValueTree → b.nestedComments = [] →
      b.code attached alone o p = .ok (.expression text order) p' →
      ∃ orders, exposed text = some orders ∧ ∀ inner ∈ orders, inner.rank ≤ order.rank) ∧
    ∀ (owner : Block) (attached : Bool) (name : String) (outer : Order) (text : String) (p' : Pass),
      (∀ c, (name, some c) ∈ owner.values → c.ValueTree) →
      (owner.site attached).value name outer o p = .ok text p' →
      ∃ orders, exposed text = some orders ∧ (∀ inner ∈ orders, inner.rank ≤ outer.rank) ∧
        (outer = .member ∨ outer = .functionCall → orders = []) := by
  have hnamed := hp.named
  constructor
  · intro b attached alone text order p' htree hcomments hrun
    obtain ⟨-, hoperand⟩ := htree.code_allows keepsNames_empty attached alone (Or.inr hcomments) p
      _ p' hnamed hrun
    exact hoperand.exposed
  · intro owner attached name outer text p' htree hrun
    obtain ⟨-, hempty | hoperand⟩ := value_allows_fits keepsNames_empty htree attached outer p text
      p' hnamed hrun
    · exact ⟨[], by rw [hempty]; rfl, fun _ h => absurd h List.not_mem_nil, fun _ => rfl⟩
    · by_cases htight : outer = .member ∨ outer = .functionCall
      · -- No operator has a rank as low as these slots.
        have hrank : outer.rank < 4 := by
          rcases htight with rfl | rfl <;> decide
        refine ⟨[], hoperand.exposed_eq_nil hrank, ?_, fun _ => rfl⟩
        exact fun _ h => absurd h List.not_mem_nil
      · obtain ⟨orders, hexposed, hranks⟩ := hoperand.exposed
        exact ⟨orders, hexposed, hranks, fun h => absurd h htight⟩

/-- The length of a text that is joined from a negative number and a missing item. -/
def joinedLength : Block :=
  .mk ⟨.value .length, "length", [], .null, .bool true, true, []⟩
    [("VALUE", some (.mk ⟨.value .joined, "join", [], .null, .bool true, true, []⟩
      [("ADD0", some (.mk ⟨.value .number, "number", [(.str "NUM", .num (.int (-5)))], .null,
        .bool true, true, []⟩ [] [] none))] [] none))] [] none

theorem valueTree_joinedLength : joinedLength.ValueTree := by
  refine .mk rfl fun name c hc => ?_
  obtain ⟨-, rfl⟩ := Prod.mk.inj (List.mem_singleton.mp hc) |>.imp_right Option.some.inj
  refine .mk rfl fun name c hc => ?_
  obtain ⟨-, rfl⟩ := Prod.mk.inj (List.mem_singleton.mp hc) |>.imp_right Option.some.inj
  exact .mk rfl fun name c hc => absurd hc List.not_mem_nil

theorem exposed_code_joinedLength :
    (∃ orders, exposed "(String(-5) + '').length" = some orders ∧
      ∀ inner ∈ orders, inner.rank ≤ Order.member.rank) ∧
    ∃ orders, exposed "(String(-5) + '')" = some orders ∧
      (∀ inner ∈ orders, inner.rank ≤ Order.member.rank) ∧ orders = [] := by
  have hlead : (NameTable.new reservedWords (some "")).variablePrefix? = some "" := rfl
  have hp := Pass.Reachable.start hlead []
  have htree := valueTree_joinedLength
  have hcomments : joinedLength.nestedComments = [] := by
    rw [Block.nestedComments_eq_nil_iff]
    simp [joinedLength, Block.nested, Block.nestedInSlots, Block.chain, Block.head, Json.isTruthy]
  constructor
  · exact (exposed_code (o := Options.default) hp).1 joinedLength true true _ _ _ htree hcomments rfl
  · have hslot : ∀ c, ("VALUE", some c) ∈ joinedLength.values → c.ValueTree := by
      cases htree with
      | mk _ hvalues => exact hvalues "VALUE"
    obtain ⟨orders, hexposed, hranks, hnone⟩ := (exposed_code (o := Options.default) hp).2
      joinedLength true "VALUE" .member _ _ hslot rfl
    exact ⟨orders, hexposed, hranks, hnone (Or.inl rfl)⟩

end BlockScript
