/-
  BlockScript.Proofs.Generate.Inputs

  The inputs of a block: what stands in a slot, what a slot gives, and the comments ahead of the code
  of a block. Trees of values are those in which every value slot holds a value that nothing follows.
-/
import BlockScript.Generate.Block
import BlockScript.Proofs.Generate.Logic

namespace BlockScript

/-! ## Slots -/

namespace Block

/-- The block in a slot. -/
def inSlot (slots : Slots) (name : String) : Option Block :=
  (slots.lookup name).join

theorem inSlot_inputs (slots : Slots) (name : String) :
    Site.inSlot (inputs slots) name =
      (inSlot slots name).map fun c => ⟨c, c.code true false⟩ := by
  induction slots with
  | nil => rfl
  | cons slot rest ih =>
    obtain ⟨slotName, link⟩ := slot
    rw [Site.inSlot] at ih ⊢
    rw [inSlot] at ih ⊢
    rw [inputs, List.lookup_cons, List.lookup_cons]
    cases name == slotName with
    | true => cases link <;> rfl
    | false => exact ih

theorem mem_of_inSlot {slots : Slots} {name : String} {c : Block}
    (h : inSlot slots name = some c) : (name, some c) ∈ slots := by
  rw [inSlot, Option.join_eq_some_iff] at h
  obtain ⟨before, after, rfl, -⟩ := List.lookup_eq_some_iff.mp h
  exact List.mem_append_right _ List.mem_cons_self

/-- A change of what is in each slot, under which an empty slot stays empty. -/
theorem inSlot_map {f : Option Block → Option Block} (hf : f none = none) (slots : Slots)
    (name : String) : inSlot (slots.map fun slot => (slot.1, f slot.2)) name = f (inSlot slots name) := by
  induction slots with
  | nil => exact hf.symm
  | cons slot rest ih =>
    obtain ⟨slotName, link⟩ := slot
    rw [inSlot] at ih ⊢
    rw [inSlot] at ih ⊢
    rw [List.map_cons, List.lookup_cons, List.lookup_cons]
    cases name == slotName with
    | true => rfl
    | false => exact ih

/-- The names of slots that differ in what is in them are the same. -/
theorem map_fst_inputs (slots : Slots) : (inputs slots).map (·.1) = slots.map (·.1) := by
  induction slots with
  | nil => rfl
  | cons slot rest ih => exact congrArg (slot.1 :: ·) ih

/-! ## Trees of values -/

/-- A block of a kind that yields a value, with blocks of this sort in its value slots, and none that
    follows. -/
inductive ValueTree : Block → Prop
  | mk {head : Head} {values statements : Slots} {kind : ValueKind}
      (hkind : head.kind = .value kind)
      (hvalues : ∀ name c, (name, some c) ∈ values → ValueTree c) :
      ValueTree (.mk head values statements none)

end Block

/-! ## What a slot gives -/

namespace Site

open Gen (Allows)

variable {o : Options} {I : Pass → Prop}

/-- A slot gives what its block yields, with the parentheses of the slot. -/
theorem value_allows {site : Site} {name : String} {outer : Order} {Q : Code → Prop}
    {P : String → Prop} (hblock : ∀ input, inSlot site.values name = some input →
      Allows o I input.code Q)
    (hnone : inSlot site.values name = none → P "") (hempty : Q (.statement "") → P "")
    (hwrap : ∀ text order, Q (.expression text order) → P (Order.wrap text outer order)) :
    Allows o I (site.value name outer) P := by
  rw [Site.value]
  cases hslot : inSlot site.values name with
  | none => exact Allows.pure (hnone hslot)
  | some input =>
    refine (hblock input hslot).bind fun code hcode => ?_
    cases code with
    | expression text order => exact Allows.pure (hwrap text order hcode)
    | statement text =>
      by_cases htext : text = ""
      · subst htext
        exact Allows.pure (hempty hcode)
      · simp only [htext, if_false]
        exact Allows.throw _

/-! ## Comments -/

/-- The comment lines of inputs are told by the comments of the blocks in them. -/
theorem inputComments_congr {slots slots' : List (String × Option Input)}
    (h : (slots.filterMap (·.2)).map (fun input => nestedComments input.block) =
      (slots'.filterMap (·.2)).map fun input => nestedComments input.block) :
    inputComments slots = inputComments slots' := by
  have htexts (inputs : List Input) : (inputs.mapM fun input => nestedComments input.block) =
      (inputs.map fun input => nestedComments input.block).mapM fun text => text := by
    rw [List.mapM_map]
    rfl
  rw [inputComments, inputComments, htexts, htexts, h]

/-- Inputs without comments have no comment lines. -/
theorem inputComments_eq_empty {slots : List (String × Option Input)}
    (h : ∀ input ∈ slots.filterMap (·.2), input.block.nestedComments = []) :
    inputComments slots = .ok "" := by
  rw [inputComments]
  generalize slots.filterMap (·.2) = inputs at h
  have hlines : ∃ texts, (inputs.mapM fun input => nestedComments input.block) = .ok texts ∧
      String.join (texts.map inputComments.commentLines') = "" := by
    induction inputs with
    | nil => exact ⟨[], rfl, rfl⟩
    | cons input rest ih =>
      obtain ⟨texts, hrun, hjoin⟩ := ih fun i hi => h i (List.mem_cons_of_mem input hi)
      have hfirst : nestedComments input.block = .ok "" := by
        rw [nestedComments, h input List.mem_cons_self]
        rfl
      refine ⟨"" :: texts, ?_, ?_⟩
      · rw [List.mapM_cons, hfirst, hrun]
        rfl
      · rw [List.map_cons, String.join_cons, hjoin]
        rfl
  obtain ⟨texts, hrun, hjoin⟩ := hlines
  rw [hrun]
  exact congrArg Except.ok hjoin

end Site

namespace Block

theorem chain_some (b : Block) : chain (some b) = b.nested ++ chain b.next := by
  obtain ⟨head, values, statements, next⟩ := b
  rw [chain, nested]
  rfl

theorem nested_eq (b : Block) :
    b.nested = b :: (nestedInSlots b.values ++ nestedInSlots b.statements) := by
  obtain ⟨head, values, statements, next⟩ := b
  rw [nested]
  rfl

theorem nested_subset_nestedInSlots {slots : Slots} {name : String} {c : Block}
    (h : (name, some c) ∈ slots) : c.nested ⊆ nestedInSlots slots := by
  induction slots with
  | nil => exact absurd h List.not_mem_nil
  | cons slot rest ih =>
    obtain ⟨slotName, link⟩ := slot
    intro b hb
    rw [nestedInSlots, List.mem_append]
    rcases List.mem_cons.mp h with heq | hrest
    · obtain ⟨rfl, rfl⟩ := Prod.mk.inj heq
      obtain ⟨head, values, statements, next⟩ := c
      rw [chain, List.mem_append]
      exact Or.inl (Or.inl hb)
    · exact Or.inr (ih hrest hb)

/-- What is nested in slots is in the chain of one of them. -/
theorem exists_of_mem_nestedInSlots {slots : Slots} {c : Block} (h : c ∈ nestedInSlots slots) :
    ∃ name b, (name, some b) ∈ slots ∧ c ∈ chain (some b) := by
  induction slots with
  | nil =>
    rw [nestedInSlots] at h
    exact absurd h List.not_mem_nil
  | cons slot rest ih =>
    obtain ⟨slotName, link⟩ := slot
    rw [nestedInSlots, List.mem_append] at h
    rcases h with hfirst | hrest
    · cases link with
      | none =>
        rw [chain] at hfirst
        exact absurd hfirst List.not_mem_nil
      | some b => exact ⟨slotName, b, List.mem_cons_self, hfirst⟩
    · obtain ⟨name, b, hb, hc⟩ := ih hrest
      exact ⟨name, b, List.mem_cons_of_mem _ hb, hc⟩

theorem chain_eq_nested {b : Block} (h : b.next = none) : chain (some b) = b.nested := by
  rw [chain_some, h, chain, List.append_nil]

theorem nestedComments_eq_nil_iff {b : Block} :
    b.nestedComments = [] ↔ ∀ c ∈ b.nested, c.head.comment.isTruthy = false := by
  simp only [nestedComments, List.filter_eq_nil_iff, List.mem_map, Bool.not_eq_true]
  constructor
  · exact fun h c hc => h _ ⟨c, hc, rfl⟩
  · rintro h _ ⟨c, hc, rfl⟩
    exact h c hc

theorem mem_nested_self (b : Block) : b ∈ b.nested := by
  cases b
  exact List.mem_cons_self

theorem nestedComments_of_mem_values {b c : Block} {name : String} (h : b.nestedComments = [])
    (hc : (name, some c) ∈ b.values) : c.nestedComments = [] := by
  rw [nestedComments_eq_nil_iff] at h ⊢
  intro d hd
  obtain ⟨head, values, statements, next⟩ := b
  have hmem := nested_subset_nestedInSlots hc hd
  exact h d (List.mem_cons_of_mem _ (List.mem_append_left _ hmem))

/-- The blocks in slots are the inputs, each with its code. -/
theorem filterMap_inputs (slots : Slots) :
    (inputs slots).filterMap (·.2) = (connected slots).map fun c => ⟨c, c.code true false⟩ := by
  induction slots with
  | nil => rfl
  | cons slot rest ih =>
    obtain ⟨name, link⟩ := slot
    cases link with
    | none => exact ih
    | some c => exact congrArg _ ih

/-- The blocks in slots as inputs are the blocks in the slots. -/
theorem mem_of_mem_inputs {slots : Slots} {input : Input}
    (h : input ∈ (inputs slots).filterMap (·.2)) : ∃ name, (name, some input.block) ∈ slots := by
  rw [filterMap_inputs] at h
  obtain ⟨c, hc, rfl⟩ := List.mem_map.mp h
  obtain ⟨⟨name, link⟩, hslot, hlink⟩ := List.mem_filterMap.mp hc
  obtain rfl : link = some c := hlink
  exact ⟨name, hslot⟩

end Block

namespace Site

open Gen (Allows)

variable {o : Options} {I : Pass → Prop}

/-- A block without a comment has no comment lines ahead of its code, if there are no comments in its
    value slots either. -/
theorem comments_eq_pure_of_values {b : Block} (hcomment : b.head.comment.isTruthy = false)
    (hvalues : ∀ name c, (name, some c) ∈ b.values → c.nestedComments = []) (attached : Bool) :
    (b.site attached).comments = pure "" := by
  have hown : (b.site attached).ownComment = pure "" := by
    rw [ownComment]
    change (if !b.head.comment.isTruthy then _ else _) = _
    rw [hcomment]
    rfl
  have hinputs : inputComments (b.site attached).values = .ok "" := by
    apply inputComments_eq_empty
    intro input hinput
    obtain ⟨name, hname⟩ := Block.mem_of_mem_inputs hinput
    exact hvalues name _ hname
  rw [comments, hown, hinputs]
  split <;> rfl

/-- A block without comments on it or in it has no comment lines ahead of its code. -/
theorem comments_eq_pure {b : Block} (h : b.nestedComments = []) (attached : Bool) :
    (b.site attached).comments = pure "" :=
  comments_eq_pure_of_values (Block.nestedComments_eq_nil_iff.mp h b b.mem_nested_self)
    (fun _ _ => Block.nestedComments_of_mem_values h) attached

/-- A value that is plugged into another block has no comment lines ahead of its code. -/
theorem comments_eq_pure_of_inline {site : Site} (h : site.isInline = true) :
    site.comments = pure "" := by
  rw [comments, h]
  rfl

/-! ## The code of a block -/

theorem requirePass_allows : Allows o I Gen.requirePass fun _ => True := by
  intro p a p' hp hrun
  obtain ⟨-, -, rfl⟩ := Gen.onPass_eq_ok hrun
  exact ⟨hp, trivial⟩

/-- What becomes of a block that is passed over. -/
def passedOver (site : Site) (alone : Bool) : Gen Code := do
  Gen.record ⟨.skippedBlock, some site.id, site.kind.name, "disabled"⟩
  if alone then return .statement "" else site.nextCode

/-- What becomes of the code that the rule of a block gives. -/
def finished (site : Site) (alone : Bool) : Option Code → Gen Code
  | some (.expression text order) => do
    if !site.head.hasOutput then throw (.valueWithoutOutput site.kind)
    return .expression (← site.complete text alone) order
  | some (.statement text) => do
    let text ← site.withHooks text
    return .statement (← site.complete text alone)
  | none => return .statement ""

/-- A block is passed over, or it is enabled and its rule gives code that is finished. -/
theorem code_allows_of_enabled {site : Site} {alone : Bool} {Q : Code → Prop}
    {S : Option Code → Prop}
    (hskip : site.head.enabled = false → Allows o I (site.passedOver alone) Q)
    (hrule : site.head.enabled = true → Allows o I site.rule S)
    (hfinish : ∀ result, S result → Allows o I (site.finished alone result) Q) :
    Allows o I (site.code alone) Q := by
  refine requirePass_allows.bind fun _ _ => ?_
  cases henabled : site.head.enabled with
  | false => exact hskip henabled
  | true => exact (hrule henabled).bind hfinish

/-- A block is passed over, or its rule gives code that is finished. -/
theorem code_allows {site : Site} {alone : Bool} {Q : Code → Prop} {S : Option Code → Prop}
    (hskip : site.head.enabled = false → Allows o I (site.passedOver alone) Q)
    (hrule : Allows o I site.rule S)
    (hfinish : ∀ result, S result → Allows o I (site.finished alone result) Q) :
    Allows o I (site.code alone) Q :=
  code_allows_of_enabled hskip (fun _ => hrule) hfinish

/-- Code without comment lines that nothing follows is complete. -/
theorem complete_eq_pure {site : Site} (hnext : site.next = none) (hcomments : site.comments = pure "")
    (text : String) (alone : Bool) : site.complete text alone = pure text := by
  rw [complete, hcomments, nextCode, hnext]
  cases alone <;> simp

/-- The code of a value that nothing follows, if it has no comment lines, is that of its rule. -/
theorem finished_eq_pure (site : Site) (houtput : site.head.hasOutput = true)
    (hnext : site.next = none) (hcomments : site.comments = pure "") (alone : Bool) (text : String)
    (order : Order) :
    site.finished alone (some (.expression text order)) = pure (.expression text order) := by
  rw [finished, complete_eq_pure hnext hcomments, houtput]
  rfl

theorem finished_allows {site : Site} {alone : Bool} {text : String} {order : Order}
    {Q : Code → Prop} (hnext : site.next = none)
    (hcomments : site.head.hasOutput = true → site.comments = pure "")
    (h : Q (.expression text order)) :
    Allows o I (site.finished alone (some (.expression text order))) Q := by
  cases houtput : site.head.hasOutput with
  | false =>
    rw [finished, houtput]
    exact Allows.throw _
  | true =>
    rw [finished_eq_pure site houtput hnext (hcomments houtput)]
    exact Allows.pure h

end Site

namespace Block

open Gen (Allows)

variable {o : Options} {I : Pass → Prop}

/-- What the rules for values make of such code in their slots is so of all trees of values, if
    nothing goes ahead of the code. -/
theorem ValueTree.code_allows_of {Q : Code → Prop}
    (hrecord : ∀ entry, Allows o I (Gen.record entry) fun _ => True) (hempty : Q (.statement ""))
    (hrule : ∀ (site : Site) (kind : ValueKind),
      (∀ name input, Site.inSlot site.values name = some input → Allows o I input.code Q) →
      Allows o I (site.expression kind) fun e => Q (.expression e.1 e.2))
    {b : Block} (h : b.ValueTree) :
    ∀ attached alone, attached = true ∨ b.nestedComments = [] →
      Allows o I (b.code attached alone) Q := by
  induction h with
  | @mk head values statements kind hkind hvalues ih =>
    intro attached alone hcomments
    let b := Block.mk head values statements none
    have hcode : Allows o I (b.site attached).rule fun result =>
        ∃ text order, result = some (.expression text order) ∧ Q (.expression text order) := by
      rw [Site.rule, show (b.site attached).kind = .value kind from hkind]
      refine (hrule (b.site attached) kind ?_).bind fun e he => ?_
      · intro name input hinput
        change Site.inSlot (inputs values) name = some input at hinput
        rw [inSlot_inputs, Option.map_eq_some_iff] at hinput
        obtain ⟨c, hc, rfl⟩ := hinput
        exact ih name c (mem_of_inSlot hc) true false (Or.inl rfl)
      · exact Allows.pure ⟨e.1, e.2, rfl, he⟩
    rw [code_eq_site_code]
    refine Site.code_allows ?_ hcode ?_
    · intro _
      refine (hrecord _).bind fun _ _ => ?_
      cases alone <;> exact Allows.pure hempty
    · rintro _ ⟨text, order, rfl, htext⟩
      refine Site.finished_allows rfl ?_ htext
      intro houtput
      rcases hcomments with rfl | hcomments
      · exact Site.comments_eq_pure_of_inline (by
          rw [Site.isInline, houtput]
          rfl)
      · exact Site.comments_eq_pure hcomments attached

end Block

end BlockScript
