/-
  BlockScript.Proofs.Member.Block

  Members of numerals in the code of blocks. The precedence of a slot whose members are used keeps
  negative numbers and operators in parentheses, but not digits. So a number block in such a slot is
  what makes a script read the point as a part of the numeral, and nothing else does.
-/
import BlockScript.Proofs.Member.Shape

namespace BlockScript

open Script
open Gen (Allows)

/-! ## Values -/

theorem CodeTrail.congr {P P' : Prop} {W W' : Order → Prop} {text : String} {order : Order}
    (h : CodeTrail P W text order) (hP : P ↔ P') (hW : ∀ order', W order' ↔ W' order') :
    CodeTrail P' W' text order where
  strays := h.strays.congr hP
  digits order' := (hW order').symm.trans (h.digits order')

/-- In a slot code is digits if it is digits without parentheses, and if the members of the slot are
    used, it ends in no other digits. -/
theorem CodeTrail.wrap {P : Prop} {W : Order → Prop} {text : String} {order : Order}
    (h : CodeTrail P W text order) (outer : Order) :
    Strays P (outer ≠ .member ∧ Literal.isSimple (Order.wrap text outer order) = false ∨
      isDigits (Order.wrap text outer order).toList = true) (Order.wrap text outer order) ∧
      (isDigits (Order.wrap text outer order).toList = true ↔
        ∃ order', W order' ∧ outer.needsParens order' = false) := by
  rw [Order.wrap]
  split
  · -- In parentheses code neither is digits nor ends in them.
    rename_i hneeds
    rw [Bool.and_eq_true] at hneeds
    have hparens := h.strays.parens
    refine ⟨hparens.weaken, iff_of_false (fun hdigits => hparens.ends (trail_of_isDigits hdigits)) ?_⟩
    rintro ⟨order', hW, hbare⟩
    obtain rfl := ((h.digits order').mp hW).2
    rw [hneeds.2] at hbare
    cases hbare
  · rename_i hbare
    have hneeds : text ≠ "" → outer.needsParens order = false := fun hne => by
      simpa [hne] using hbare
    constructor
    · by_cases hne : text = ""
      · rw [hne]
        refine Strays.empty.weaken.congr ?_
        rw [← h.strays.none_iff, hne, ← Strays.empty.none_iff]
      · refine h.strays.mono Iff.rfl (Or.imp_left fun hloose => ⟨?_, hloose.2⟩)
        -- Where a member is used, code of operators is in parentheses.
        rintro rfl
        have htight : ∀ inner : Order, Order.member.needsParens inner = false → inner.rank ≤ 2 := by
          intro inner
          cases inner <;> decide
        exact absurd (htight order (hneeds hne)) (Nat.not_le.mpr hloose.1)
    · constructor
      · intro hdigits
        have hne : text ≠ "" := by
          rintro rfl
          exact absurd hdigits (by decide)
        exact ⟨order, (h.digits order).mpr ⟨hdigits, rfl⟩, hneeds hne⟩
      · rintro ⟨order', hW, -⟩
        exact ((h.digits order').mp hW).1

namespace Block

/-- A value whose code is digits, with the precedence of the code: a number, all of a text that is
    digits, or what a block that is passed over has behind it. -/
inductive WritesDigits : Block → Order → Prop
  | number {b : Block} {n : Number} (henabled : b.head.enabled = true)
      (hkind : b.kind = .value .number)
      (hn : Site.numberOf ((b.head.fields.get? "NUM").getD (.num (.int 0))) = .ok n)
      (hdigits : isDigits n.numeral.toList = true) :
      WritesDigits b (if n.isNonneg then .atomic else .unaryNegation)
  | whole {b c : Block} {order : Order} (henabled : b.head.enabled = true)
      (hkind : b.kind = .value .substring)
      (hstart : (b.site false).optionAmong "WHERE1" Site.startEdges = .ok .outermost)
      (hstop : (b.site false).optionAmong "WHERE2" Site.stopEdges = .ok .outermost)
      (hc : inSlot b.values "STRING" = some c) (h : WritesDigits c order) : WritesDigits b .none
  | passed {b c : Block} {order : Order} (hdisabled : b.head.enabled = false)
      (hc : b.next = some c) (h : WritesDigits c order) : WritesDigits b order

/-- A value in whose code a member of a numeral is used: a slot of which a member is used holds
    digits that the slot puts in no parentheses, or another slot that is written holds such a value. -/
inductive UsesNumeral : Block → Prop
  | subject {b c : Block} {kind : ValueKind} {slot : String} {outer order : Order}
      (henabled : b.head.enabled = true) (hkind : b.kind = .value kind)
      (hslot : (b.site false).subject? kind = some (slot, outer))
      (hc : inSlot b.values slot = some c) (hdigits : c.WritesDigits order)
      (hbare : outer.needsParens order = false) : UsesNumeral b
  | value {b c : Block} {kind : ValueKind} {slot : String} (henabled : b.head.enabled = true)
      (hkind : b.kind = .value kind) (hslot : slot ∈ (b.site false).expressionSlots kind)
      (hc : inSlot b.values slot = some c) (h : UsesNumeral c) : UsesNumeral b
  | passed {b c : Block} (hdisabled : b.head.enabled = false) (hc : b.next = some c)
      (h : UsesNumeral c) : UsesNumeral b

variable {b : Block}

/-- Whether the block in a slot has a member of a numeral in its code. -/
def SlotUsesNumeral (b : Block) (slot : String) : Prop :=
  ∃ c, inSlot b.values slot = some c ∧ c.UsesNumeral

/-- Whether the code in a slot is digits, by the precedence of the slot. -/
def SlotWritesDigits (b : Block) (slot : String) (outer : Order) : Prop :=
  ∃ order, (∃ c, inSlot b.values slot = some c ∧ c.WritesDigits order) ∧
    outer.needsParens order = false

theorem usesNumeral_iff {kind : ValueKind} (henabled : b.head.enabled = true)
    (hkind : b.kind = .value kind) (attached : Bool) : b.UsesNumeral ↔
      (b.site attached).UsesNumeral b.SlotUsesNumeral b.SlotWritesDigits kind := by
  constructor
  · intro h
    cases h with
    | subject _ hkind' hslot hc hdigits hbare =>
      obtain rfl := Kind.value.inj (hkind.symm.trans hkind')
      exact Or.inr ⟨_, _, hslot, _, ⟨_, hc, hdigits⟩, hbare⟩
    | value _ hkind' hslot hc h =>
      obtain rfl := Kind.value.inj (hkind.symm.trans hkind')
      exact Or.inl ⟨_, hslot, _, hc, h⟩
    | passed hdisabled =>
      rw [henabled] at hdisabled
      cases hdisabled
  · rintro (⟨slot, hslot, c, hc, h⟩ | ⟨slot, outer, hslot, order, ⟨c, hc, hdigits⟩, hbare⟩)
    · exact .value henabled hkind hslot hc h
    · exact .subject henabled hkind hslot hc hdigits hbare

theorem writesDigits_iff {kind : ValueKind} (henabled : b.head.enabled = true)
    (hkind : b.kind = .value kind) (attached : Bool) (order : Order) :
    b.WritesDigits order ↔ (b.site attached).IsDigits b.SlotWritesDigits kind order := by
  constructor
  · intro h
    cases h with
    | number _ hkind' hn hdigits =>
      obtain rfl := Kind.value.inj (hkind.symm.trans hkind')
      exact Or.inl ⟨rfl, _, hn, hdigits, rfl⟩
    | @whole _ c inner _ hkind' hstart hstop hc h =>
      obtain rfl := Kind.value.inj (hkind.symm.trans hkind')
      have hbare : Order.none.needsParens inner = false := by cases inner <;> rfl
      exact Or.inr ⟨rfl, hstart, hstop, ⟨inner, ⟨c, hc, h⟩, hbare⟩, rfl⟩
    | passed hdisabled =>
      rw [henabled] at hdisabled
      cases hdisabled
  · rintro (⟨rfl, n, hn, hdigits, rfl⟩ | ⟨rfl, hstart, hstop, ⟨inner, ⟨c, hc, h⟩, -⟩, rfl⟩)
    · exact .number henabled hkind hn hdigits
    · exact .whole henabled hkind hstart hstop hc h

/-- What the code of a value is known to be; a block that is passed over has no text. -/
def Tracked (b : Block) : Code → Prop
  | .expression text order => CodeTrail b.UsesNumeral b.WritesDigits text order
  | .statement text => text = "" ∧ ¬b.UsesNumeral ∧ ∀ order, ¬b.WritesDigits order

variable {o : Options}

/-- What the inputs and names of a block come to in a pass that keeps names behind its prefix. -/
def memberReading (b : Block) : Reading where
  slot name outer text := Strays (b.SlotUsesNumeral name)
    (outer ≠ .member ∧ Literal.isSimple text = false ∨ isDigits text.toList = true) text ∧
    (isDigits text.toList = true ↔ b.SlotWritesDigits name outer)
  variableName _ emitted := isName emitted.toList = true
  procedureName _ emitted := isName emitted.toList = true
  helperName _ emitted := isName emitted.toList = true

theorem memberReading_tracks (b : Block) :
    b.memberReading.Tracks b.SlotUsesNumeral b.SlotWritesDigits where
  strays h := h.1
  digits h := h.2
  variableName h := h
  procedureName h := h
  helperName h := h

/-- A slot without code has nothing to do with numerals. -/
theorem memberReading_empty {name : String} (outer : Order)
    (h : ∀ c, inSlot b.values name = some c → ¬c.UsesNumeral ∧ ∀ order, ¬c.WritesDigits order) :
    b.memberReading.slot name outer "" := by
  constructor
  · refine Strays.empty.weaken.congr (iff_of_false not_false ?_)
    rintro ⟨c, hc, huses⟩
    exact (h c hc).1 huses
  · refine iff_of_false (by decide) ?_
    rintro ⟨order, ⟨c, hc, hdigits⟩, -⟩
    exact (h c hc).2 order hdigits

theorem memberReading_sound {lead : String} (hlead : KeepsNames lead) (attached : Bool)
    (hvalue : ∀ name c, inSlot b.values name = some c →
      Allows o (Pass.Named (some lead)) (c.code true false) c.Tracked) :
    b.memberReading.Sound o (Pass.Named (some lead)) (b.site attached) where
  record := Gen.record_allows fun p entry hp => hp.record entry
  value name outer := by
    refine Site.value_allows (Q := fun code => ∃ c, inSlot b.values name = some c ∧ c.Tracked code)
      ?_ ?_ ?_ ?_
    · intro input hinput
      change Site.inSlot (inputs b.values) name = some input at hinput
      rw [inSlot_inputs, Option.map_eq_some_iff] at hinput
      obtain ⟨c, hc, rfl⟩ := hinput
      exact (hvalue name c hc).mono fun code hcode => ⟨c, hc, hcode⟩
    · intro hnone
      change Site.inSlot (inputs b.values) name = none at hnone
      rw [inSlot_inputs, Option.map_eq_none_iff] at hnone
      refine memberReading_empty outer fun c hc => ?_
      rw [hnone] at hc
      cases hc
    · rintro ⟨c, hc, -, hnone⟩
      refine memberReading_empty outer fun d hd => ?_
      obtain rfl := Option.some.inj (hc.symm.trans hd)
      exact hnone
    · rintro text order ⟨c, hc, hcode⟩
      obtain ⟨hstrays, hdigits⟩ := CodeTrail.wrap hcode outer
      refine ⟨hstrays.congr ?_, hdigits.trans ?_⟩
      · simp [SlotUsesNumeral, hc]
      · simp [SlotWritesDigits, hc]
  variableName name := (Gen.variableName_allows name).mono fun emitted h => by
    obtain ⟨candidate, hname, rfl⟩ := h
    exact hlead candidate hname
  procedureName := Gen.procedureName_allows
  helper name template _ := Gen.helper_allows name template

/-- The code of values some of which follow others is known in every pass that keeps names. -/
theorem ValueChain.code_tracked {lead : String} (hlead : KeepsNames lead) (h : b.ValueChain)
    (attached alone : Bool) (hcomments : attached = true ∨ b.nestedComments = []) :
    Allows o (Pass.Named (some lead)) (b.code attached alone)
      fun code => b.Tracked code ∨ alone = true ∧ code = .statement "" := by
  have hrecord : ∀ entry, Allows o (Pass.Named (some lead)) (Gen.record entry) fun _ => True :=
    Gen.record_allows fun p entry hp => hp.record entry
  refine h.code_allows_of hrecord ?_ (fun _ _ h => h.1) ?_ ?_ attached alone hcomments
  · intro b hdisabled hnext
    refine ⟨rfl, fun huses => ?_, fun order hdigits => ?_⟩
    · cases huses <;> simp_all
    · cases hdigits <;> simp_all
  · intro b c code hdisabled hnext hc
    have huses : c.UsesNumeral ↔ b.UsesNumeral := by
      refine ⟨.passed hdisabled hnext, fun h => ?_⟩
      cases h with
      | passed _ hc h => exact Option.some.inj (hnext.symm.trans hc) ▸ h
      | subject henabled | value henabled => simp [hdisabled] at henabled
    have hdigits : ∀ order, c.WritesDigits order ↔ b.WritesDigits order := by
      refine fun order => ⟨.passed hdisabled hnext, fun h => ?_⟩
      cases h with
      | passed _ hc h => exact Option.some.inj (hnext.symm.trans hc) ▸ h
      | number henabled | whole henabled => simp [hdisabled] at henabled
    cases code with
    | expression text order => exact CodeTrail.congr hc huses hdigits
    | statement text =>
      exact ⟨hc.1, mt huses.mpr hc.2.1, fun order => mt (hdigits order).mpr (hc.2.2 order)⟩
  · intro b attached kind hkind henabled hvalue
    have hsound := memberReading_sound hlead attached hvalue
    refine (Site.expression_writes hsound kind).mono fun e he => ?_
    exact (he.codeTrail b.memberReading_tracks).congr (usesNumeral_iff henabled hkind attached).symm
      fun order => (writesDigits_iff henabled hkind attached order).symm

/-- In the code of values some of which follow others, from every pass with a prefix that keeps names
    names, a numeral of digits has a point and a name behind it exactly if a slot of which a member
    is used holds digits that the slot puts in no parentheses. -/
theorem hasNumeralMember_code_iff {lead : String} (hlead : KeepsNames lead) {p q : Pass}
    (hp : p.Reachable (some lead)) (h : b.ValueChain) {attached alone : Bool}
    (hcomments : attached = true ∨ b.nestedComments = []) {text : String} {order : Order}
    (hrun : b.code attached alone o p = .ok (.expression text order) q) :
    HasNumeralMember (tokens text) ↔ b.UsesNumeral := by
  obtain ⟨-, hcode | ⟨-, hnone⟩⟩ := h.code_tracked hlead attached alone hcomments p _ q hp.named hrun
  · exact hasNumeralMember_iff.trans hcode.strays.none_iff
  · cases hnone

/-- The length of the number five. -/
def lengthOfFive : Block :=
  .mk ⟨.value .length, "length", [], .null, .bool true, true, []⟩
    [("VALUE", some (.mk ⟨.value .number, "number", [(.str "NUM", .num (.int 5))], .null, .bool true,
      true, []⟩ [] [] none))] [] none

theorem valueChain_lengthOfFive : lengthOfFive.ValueChain := by
  refine .mk rfl (fun name c hc => ?_) (fun c hc => by cases hc)
  obtain ⟨-, rfl⟩ := Prod.mk.inj (List.mem_singleton.mp hc) |>.imp_right Option.some.inj
  exact .mk rfl (fun name c hc => absurd hc List.not_mem_nil) (fun c hc => by cases hc)

theorem hasNumeralMember_code_iff_length :
    HasNumeralMember (tokens "5.length") ↔ lengthOfFive.UsesNumeral := by
  let p := Pass.start (.new reservedWords (some "")) []
  have hlead : (NameTable.new reservedWords (some "")).variablePrefix? = some "" := rfl
  have hp : p.Reachable (some "") := .start hlead []
  have hrun : lengthOfFive.code true true .default p = .ok (.expression "5.length" .member) p := rfl
  exact hasNumeralMember_code_iff keepsNames_empty hp valueChain_lengthOfFive (Or.inl rfl) hrun

/-- The code of a length may be a numeral with its point and a name that is left over. -/
theorem lengthOfFive_code : ∃ text order q,
    lengthOfFive.code true true .default (.start (.new reservedWords (some "")) []) =
        .ok (.expression text order) q ∧
      text = "5.length" ∧ HasNumeralMember (tokens text) :=
  ⟨_, _, _, rfl, rfl, [], "5", "length", [], by decide, by decide⟩

end Block

end BlockScript
