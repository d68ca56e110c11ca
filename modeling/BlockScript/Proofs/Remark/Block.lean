/-
  BlockScript.Proofs.Remark.Block

  The code of two blocks that are the same but for the wording of comments. What comes with the code of
  a block is what is ahead of it and what comes with its chains and with the blocks that follow. A rule
  takes up each chain once, if every chain is in a slot that it reads.
-/
import BlockScript.Proofs.Remark.Blurring

namespace BlockScript

open Gen (Agree Conveys)
open Text (Apportioned Retold)

/-- Code that is the same but for the wording of comments. -/
inductive Code.Retold (comments : Multiset (String × String)) : Code → Code → Prop
  | statement {s t : String} (h : Text.Retold comments s t) :
      Retold comments (.statement s) (.statement t)
  | expression {s t : String} (order : Order) (h : Text.Retold comments s t) :
      Retold comments (.expression s order) (.expression t order)

/-- Two rules that both give code, the same but for the wording of comments. -/
def Code.BothRetold (comments : Multiset (String × String)) : Option Code → Option Code → Prop
  | some code, some code' => code.Retold comments code'
  | _, _ => False

namespace Block

variable {o : Options} {b b' : Block} {attached : Bool}

/-! ## Cargo -/

/-- The comments ahead of the code of a block, with those of another one. -/
def bothAhead (o : Options) (b b' : Block) : Multiset (String × String) :=
  (b.remarksAhead o).zip (b'.remarksAhead o)

/-- The name that a block defines, if it is a procedure. -/
def nameOf (b : Block) : Multiset String :=
  if b.kind.definesProcedure then {Text.lower (b.head.field "NAME").shown} else 0

/-- What comes with blocks that stand on their own. -/
def cargo (o : Options) (l l' : List Block) : Cargo :=
  (List.zipWith (fun b b' => (b.nameOf, bothAhead o b b')) l l').sum

/-- What comes with a chain. -/
def linkCargo (o : Options) (link link' : Option Block) : Cargo :=
  cargo o (standingInLink link) (standingInLink link')

/-- What comes with the chain in a slot. -/
def slotCargo (o : Options) (b b' : Block) (slot : String) : Cargo :=
  linkCargo o (inSlot b.statements slot) (inSlot b'.statements slot)

/-- What comes with all chains of a block. -/
def chainCargo (o : Options) (b b' : Block) : Cargo :=
  cargo o (standingInSlots b.statements) (standingInSlots b'.statements)

theorem cargo_cons (b b' : Block) (l l' : List Block) :
    cargo o (b :: l) (b' :: l') = (b.nameOf, bothAhead o b b') + cargo o l l' :=
  List.sum_cons

theorem cargo_append {l₁ l₁' l₂ l₂' : List Block} (h : l₁.length = l₁'.length) :
    cargo o (l₁ ++ l₂) (l₁' ++ l₂') = cargo o l₁ l₁' + cargo o l₂ l₂' := by
  rw [cargo, List.zipWith_append h, List.sum_append]
  rfl

theorem length_standingInLink {link link' : Option Block} (h : Option.Rel Rewords link link') :
    (standingInLink link).length = (standingInLink link').length := by
  cases h with
  | none => rfl
  | some h => exact h.standing.length_eq

theorem length_standingInSlots {slots slots' : Slots} (h : List.Forall₂ (fun slot slot' =>
    slot.1 = slot'.1 ∧ Option.Rel Rewords slot.2 slot'.2) slots slots') :
    (standingInSlots slots).length = (standingInSlots slots').length := by
  induction h with
  | nil => rfl
  | @cons slot slot' rest rest' hslot _ ih =>
    obtain ⟨name, link⟩ := slot
    obtain ⟨name', link'⟩ := slot'
    rw [standingInSlots, standingInSlots, List.length_append, List.length_append,
      length_standingInLink hslot.2, ih]

/-- What comes with a block. -/
theorem Rewords.cargo_eq (h : b.Rewords b') :
    cargo o b.standing b'.standing =
      (b.nameOf, bothAhead o b b') + (chainCargo o b b' + linkCargo o b.next b'.next) := by
  rw [standing_eq, standing_eq, chainCargo, linkCargo,
    ← cargo_append (length_standingInSlots h.statements), cargo_cons]

/-! ### Slots -/

theorem inSlot_cons_self (name : String) (link : Option Block) (slots : Slots) :
    inSlot ((name, link) :: slots) name = link := by
  rw [inSlot, List.lookup_cons_self]
  rfl

theorem inSlot_cons_of_ne {name slot : String} (h : name ≠ slot) (link : Option Block)
    (slots : Slots) : inSlot ((slot, link) :: slots) name = inSlot slots name := by
  rw [inSlot, List.lookup_cons, beq_false_of_ne h]
  rfl

/-- What comes with the chains in slots of different names, slot by slot. -/
theorem cargo_standingInSlots {slots slots' : Slots} (h : List.Forall₂ (fun slot slot' =>
    slot.1 = slot'.1 ∧ Option.Rel Rewords slot.2 slot'.2) slots slots')
    (hslots : (slots.map (·.1)).Nodup) :
    cargo o (standingInSlots slots) (standingInSlots slots') =
      ((slots.map (·.1)).map fun name =>
        linkCargo o (inSlot slots name) (inSlot slots' name)).sum := by
  induction h with
  | nil => rfl
  | @cons slot slot' rest rest' hslot hrest ih =>
    obtain ⟨name, link⟩ := slot
    obtain ⟨name', link'⟩ := slot'
    obtain ⟨rfl, hlink⟩ := hslot
    rw [List.map_cons, List.nodup_cons] at hslots
    have hothers : ∀ other ∈ rest.map (·.1),
        linkCargo o (inSlot ((name, link) :: rest) other) (inSlot ((name, link') :: rest') other) =
          linkCargo o (inSlot rest other) (inSlot rest' other) := by
      intro other hother
      have hne : other ≠ name := ne_of_mem_of_not_mem hother hslots.1
      rw [inSlot_cons_of_ne hne, inSlot_cons_of_ne hne]
    rw [standingInSlots, standingInSlots, cargo_append (length_standingInLink hlink), ih hslots.2,
      List.map_cons, List.map_cons, List.sum_cons, inSlot_cons_self, inSlot_cons_self,
      List.map_congr_left hothers]
    rfl

/-- Two lists without repetitions have the same sum of a function that is zero but on items of
    both. -/
theorem sum_map_eq {l l' : List String} (hl : l.Nodup) (hl' : l'.Nodup) {f : String → Cargo}
    (h : ∀ a ∈ l, f a ≠ 0 → a ∈ l') (h' : ∀ a ∈ l', f a ≠ 0 → a ∈ l) :
    (l.map f).sum = (l'.map f).sum := by
  rw [← List.sum_toFinset f hl, ← List.sum_toFinset f hl', ← Finset.sum_filter_ne_zero l.toFinset,
    ← Finset.sum_filter_ne_zero l'.toFinset]
  congr 1
  ext a
  simp only [Finset.mem_filter, List.mem_toFinset]
  constructor
  · exact fun ⟨hmem, hne⟩ => ⟨h a hmem hne, hne⟩
  · exact fun ⟨hmem, hne⟩ => ⟨h' a hmem hne, hne⟩

/-- Nothing comes with an empty slot. -/
theorem Rewords.slotCargo_eq_zero (h : b.Rewords b') {slot : String}
    (hnone : inSlot b.statements slot = none) : slotCargo o b b' slot = 0 := by
  have hrel := h.inSlot_statements slot
  rw [slotCargo, hnone]
  rw [hnone] at hrel
  generalize inSlot b'.statements slot = link' at hrel ⊢
  cases hrel
  rfl

/-- What comes with the chains of a block comes with the slots that are read, if each is read once. -/
theorem Rewords.chainCargo_eq_sum (h : b.Rewords b') (hslots : (b.statements.map (·.1)).Nodup)
    {read : List String} (hread : read.Nodup)
    (hall : ∀ slot c, (slot, some c) ∈ b.statements → slot ∈ read) :
    chainCargo o b b' = (read.map (slotCargo o b b')).sum := by
  rw [chainCargo, cargo_standingInSlots h.statements hslots]
  apply sum_map_eq hslots hread
  · intro slot _ hne
    cases hslot : inSlot b.statements slot with
    | none => exact absurd (h.slotCargo_eq_zero hslot) hne
    | some c => exact hall slot c (mem_of_inSlot hslot)
  · intro slot _ hne
    cases hslot : inSlot b.statements slot with
    | none => exact absurd (h.slotCargo_eq_zero hslot) hne
    | some c => exact List.mem_map_of_mem (mem_of_inSlot hslot)

/-- Nothing comes with the chains of a block that reads none. -/
theorem Rewords.chainCargo_eq_zero (h : b.Rewords b') (horderly : b.IsOrderly)
    (hnone : (b.site false).chainSlots = []) : chainCargo o b b' = 0 := by
  refine h.chainCargo_eq_sum horderly.slots List.nodup_nil fun slot c hc => ?_
  rw [← hnone]
  exact horderly.read slot c hc

/-- What comes with the chains of a conditional comes with its branches. -/
theorem Rewords.chainCargo_conditional (h : b.Rewords b') (horderly : b.IsOrderly) (attached : Bool)
    (hslots : (b.site false).chainSlots = (b.site false).branchSlots .conditional) :
    chainCargo o b b' = ((List.range (b.site attached).branchCount).map fun i =>
        slotCargo o b b' ("DO" ++ toString i)).sum + slotCargo o b b' "ELSE" := by
  have hnodup : ((List.range (b.site attached).branchCount).map (fun i => "DO" ++ toString i) ++
      ["ELSE"]).Nodup := by
    have hbranches := List.Nodup.map (NameTable.append_toString_injective "DO")
      (List.nodup_range (n := (b.site attached).branchCount))
    refine hbranches.append (List.nodup_singleton _) ?_
    intro slot hslot helse
    obtain ⟨i, -, rfl⟩ := List.mem_map.mp hslot
    have hfirst := congrArg (fun s => s.toList.head?) (List.mem_singleton.mp helse)
    simp at hfirst
  rw [h.chainCargo_eq_sum horderly.slots hnodup]
  · rw [List.map_append, List.sum_append, List.map_map, List.map_singleton, List.sum_singleton]
    rfl
  · intro slot c hc
    have hslot := horderly.read slot c hc
    rw [hslots] at hslot
    rcases mem_branchSlots_conditional hslot with ⟨i, hi, rfl⟩ | ⟨-, rfl⟩
    · exact List.mem_append_left _ (List.mem_map_of_mem hi)
    · exact List.mem_append_right _ List.mem_cons_self

/-! ## Parts of the code -/

/-- The code of two blocks conveys what comes with them, unless they are plugged into another block. -/
def CodeConveys (o : Options) (b b' : Block) : Prop :=
  ∀ attached, (b.site attached).isInline = false →
    Conveys o (b.code attached false) (b'.code attached false) (cargo o b.standing b'.standing)
      Code.Retold

/-- A statement is not plugged into another block. -/
theorem isInline_of_isValue {c : Block} (hc : c.IsPlaced) (hvalue : c.kind.isValue = false)
    (attached : Bool) : (c.site attached).isInline = false := by
  have hhead : (c.site attached).head = c.head := rfl
  rw [Site.isInline, hhead, hc.hasOutput, hvalue, Bool.false_and]

theorem Rewords.isInline_eq (h : b.Rewords b') (attached : Bool) :
    (b'.site attached).isInline = (b.site attached).isInline :=
  (congrArg (fun head => Head.hasOutput head && attached) h.head.symm :)

theorem Rewords.hookText_eq (h : b.Rewords b') (attached : Bool) (setting : Json) :
    (b.site attached).hookText setting = (b'.site attached).hookText setting := by
  have hid : (b.site attached).id = (b'.site attached).id := (congrArg Head.id h.head :)
  simp only [Site.hookText, hid]

theorem hasSlot_of_inSlot_statements (attached : Bool) {slot : String} {c : Block}
    (hc : inSlot b.statements slot = some c) :
    (b.site attached).hasSlot slot = true := by
  have hslots : (b.site attached).statements.map (·.1) = b.statements.map (·.1) := map_fst_inputs _
  have hmem : slot ∈ (b.site attached).statements.map (·.1) :=
    hslots ▸ List.mem_map_of_mem (mem_of_inSlot hc)
  obtain ⟨entry, hentry, rfl⟩ := List.mem_map.mp hmem
  rw [Site.hasSlot, Bool.or_eq_true_iff]
  exact Or.inr (List.any_eq_true.mpr ⟨entry, hentry, decide_eq_true rfl⟩)

/-- The text of a statement is its code. -/
theorem lines_conveys {m m' : Gen String} {cargo : Cargo} (hm : Conveys o m m' cargo Retold) :
    Conveys o (some <$> m >>= fun text => pure (text.map Code.statement))
      (some <$> m' >>= fun text => pure (text.map Code.statement)) cargo Code.BothRetold := by
  simp only [map_eq_pure_bind, bind_assoc, pure_bind]
  apply hm.bind_last
  exact fun given s t htext => .pure (.statement htext)

/-! ### Comments ahead -/

theorem ownComment_conveys (h : b.Rewords b') (attached : Bool) :
    Conveys o (b.site attached).ownComment (b'.site attached).ownComment
      (0, (b.head.comment.remark?.map o.wrapped).toList.zip
        (b'.head.comment.remark?.map o.wrapped).toList) Retold := by
  have hsome := h.isSome_remark
  cases hremark : b.head.comment.remark? with
  | none =>
    have hremark' : b'.head.comment.remark? = none := by
      rw [hremark] at hsome
      exact Option.not_isSome_iff_eq_none.mp (Bool.eq_false_iff.mp hsome.symm)
    have htruthy : (b.site attached).head.comment.isTruthy =
        (b'.site attached).head.comment.isTruthy := h.isTruthy_comment
    rw [Site.ownComment_of_none hremark, Site.ownComment_of_none hremark', htruthy, hremark']
    split
    · exact Conveys.throw _
    · exact Conveys.pure (Retold.refl "")
  | some text =>
    obtain ⟨text', hremark'⟩ : ∃ text', b'.head.comment.remark? = some text' := by
      rw [← Option.isSome_iff_exists, ← hsome, hremark]
      rfl
    rw [Site.ownComment_of_remark hremark, Site.ownComment_of_remark hremark', hremark']
    apply Conveys.options
    rcases o.wrapping_cases with ⟨fault, hfault⟩ | hwrapped
    · rw [hfault, hfault]
      exact .throw fault
    · rw [hwrapped, hwrapped, Gen.lift_ok, Gen.lift_ok, pure_bind, pure_bind]
      apply Conveys.pure
      rw [Text.commentLines_eq_commentsAhead, Text.commentLines_eq_commentsAhead]
      exact Retold.commentsAhead rfl

/-- The comments ahead of the code of a block that is not plugged into another one. -/
theorem comments_conveys (h : b.Rewords b') (hinline : (b.site attached).isInline = false) :
    Conveys o (b.site attached).comments (b'.site attached).comments (0, bothAhead o b b')
      Retold := by
  have hinputs : ∀ c : Block, (c.site attached).values = inputs c.values := fun _ => rfl
  have hlength : (b.head.comment.remark?.map o.wrapped).toList.length =
      (b'.head.comment.remark?.map o.wrapped).toList.length := by
    have hahead := h.length_remarksAhead o
    rw [remarksAhead, remarksAhead, List.length_append, List.length_append,
      h.length_remarks_values] at hahead
    exact Nat.add_right_cancel hahead
  have hcomments : bothAhead o b b' =
      ((b.head.comment.remark?.map o.wrapped).toList.zip
        (b'.head.comment.remark?.map o.wrapped).toList : Multiset (String × String)) +
      (((connected b.values).flatMap nestedRemarks).zip
        ((connected b'.values).flatMap nestedRemarks) : Multiset (String × String)) := by
    rw [bothAhead, remarksAhead, remarksAhead, List.zip_append hlength, Multiset.coe_add]
  rw [Site.comments, Site.comments, h.isInline_eq, hinline, hcomments,
    ← add_zero (0 : Multiset String), ← Prod.mk_add_mk]
  simp only [Bool.false_eq_true, if_false]
  -- The comment of the block itself goes first, then those of its inputs.
  apply (ownComment_conveys h attached).bind
  intro given own own' hown
  rw [hinputs, hinputs, Site.inputComments_eq, Site.inputComments_eq, ← h.all_isRemark_values]
  split
  · rw [Gen.lift_ok, Gen.lift_ok, pure_bind, pure_bind]
    apply Conveys.pure
    rw [Prod.snd_add, add_comm]
    exact hown.append (Retold.commentsAhead h.length_remarks_values)
  · exact .throw _

/-! ### Chains -/

section
variable (h : b.Rewords b') (hb : b.IsPlacedTree)
include h hb

theorem chain_conveys
    (hchains : ∀ c ∈ connected b.statements, ∀ c', c.Rewords c' → CodeConveys o c c')
    (attached : Bool) (slot : String) :
    Conveys o ((b.site attached).chain slot) ((b'.site attached).chain slot) (slotCargo o b b' slot)
      Retold := by
  have hrel := h.inSlot_statements slot
  have hmem : ∀ c, inSlot b.statements slot = some c → c ∈ connected b.statements :=
    fun c hc => List.mem_filterMap.mpr ⟨_, mem_of_inSlot hc, rfl⟩
  have hslot : ∀ c : Block, (c.site attached).statements = inputs c.statements := fun _ => rfl
  rw [Site.chain_eq, Site.chain_eq, hslot, hslot, inSlot_inputs, inSlot_inputs, slotCargo]
  generalize inSlot b.statements slot = link, inSlot b'.statements slot = link' at hrel hmem
  cases hrel with
  | none => exact .pure (.refl "")
  | @some c c' hc =>
    have hplaced := (hb.child (mem_children_of_statements (hmem c rfl))).isPlaced
    have hinline := isInline_of_isValue hplaced (hb.isPlaced.statements c (hmem c rfl)) true
    have hkind : c.kind = c'.kind := hc.kind
    show Conveys o (c.code true false >>= Site.chainLines c.kind)
      (c'.code true false >>= Site.chainLines c'.kind) _ _
    rw [← hkind]
    apply (hchains c (hmem c rfl) c' hc true hinline).bind_last
    intro given code code' hcode
    cases hcode with
    | expression => exact .throw _
    | @statement s t htext =>
      rw [Site.chainLines, Site.chainLines]
      -- No text is not indented; there is no comment in it either.
      by_cases hs : s = ""
      · have ht := htext.eq_empty_iff.mp hs
        rw [if_pos hs, if_pos ht]
        rw [hs, ht] at htext
        exact .pure htext
      · rw [if_neg hs, if_neg (mt htext.eq_empty_iff.mpr hs)]
        exact .indented htext

theorem nextCode_conveys
    (hnext : ∀ c, b.next = some c → ∀ c', c.Rewords c' → CodeConveys o c c') (attached : Bool) :
    Conveys o (b.site attached).nextCode (b'.site attached).nextCode (linkCargo o b.next b'.next)
      Code.Retold := by
  have hrel := h.next
  rw [nextCode_site, nextCode_site]
  cases hlink : b.next with
  | none =>
    rw [hlink] at hrel
    generalize b'.next = link' at hrel
    cases hrel
    exact .pure (.statement (.refl ""))
  | some c =>
    have hplaced := (hb.child (mem_children_of_next hlink)).isPlaced
    have hinline := isInline_of_isValue hplaced (hb.isPlaced.next c hlink) true
    rw [hlink] at hrel
    generalize b'.next = link' at hrel
    cases hrel with
    | some hc => exact hnext c hlink _ hc true hinline

/-- Whole code: the comments go ahead of it, and the blocks that follow behind it. -/
theorem complete_conveys
    (hnext : ∀ c, b.next = some c → ∀ c', c.Rewords c' → CodeConveys o c c')
    (hinline : (b.site attached).isInline = false) {given : Multiset (String × String)} {s t : String}
    (htext : Retold given s t) :
    Conveys o ((b.site attached).complete s false) ((b'.site attached).complete t false)
      ((0, bothAhead o b b') + linkCargo o b.next b'.next + (0, given)) Retold := by
  rw [Site.complete, Site.complete, add_assoc]
  apply (comments_conveys h hinline).bind
  intro ahead comments comments' hcomments
  rw [if_neg Bool.false_ne_true, if_neg Bool.false_ne_true, add_assoc]
  apply (nextCode_conveys h hb hnext attached).bind
  intro behind code code' hcode
  cases hcode with
  | expression => exact .throw _
  | statement hmore =>
    apply Conveys.pure
    rw [Prod.snd_add, Prod.snd_add, add_comm given]
    exact (hcomments.append htext).append hmore

/-- The hooks around statement code are the same. -/
theorem withHooks_conveys (attached : Bool) {given : Multiset (String × String)} {s t : String}
    (htext : Retold given s t) :
    Conveys o ((b.site attached).withHooks s) ((b'.site attached).withHooks t) (0, given) Retold := by
  rw [Site.withHooks, Site.withHooks, ← (h.alike hb attached).kind]
  split
  · exact Conveys.pure htext
  · apply Conveys.options
    rw [← h.hookText_eq attached, ← h.hookText_eq attached]
    apply Conveys.bind_agree ((Gen.agree_congruence o).lift ((b.site attached).hookText_bounds _))
    intro lead
    apply Conveys.bind_agree ((Gen.agree_congruence o).lift ((b.site attached).hookText_bounds _))
    exact fun tail => .pure ((htext.behind lead).ahead tail)

/-- What becomes of code, with hooks, comments and the blocks that follow. -/
theorem finished_conveys
    (hnext : ∀ c, b.next = some c → ∀ c', c.Rewords c' → CodeConveys o c c')
    (hinline : (b.site attached).isInline = false) {given : Multiset (String × String)} {code code' : Code}
    (hcode : code.Retold given code') :
    Conveys o ((b.site attached).finished false (some code))
      ((b'.site attached).finished false (some code'))
      ((0, bothAhead o b b') + linkCargo o b.next b'.next + (0, given)) Code.Retold := by
  have halike := h.alike hb attached
  cases hcode with
  | expression order htext =>
    rw [Site.finished, Site.finished, ← halike.hasOutput, ← halike.kind]
    split
    · exact Conveys.throw _
    · apply (complete_conveys h hb hnext hinline htext).bind_last
      exact fun given s t hwhole => .pure (.expression order hwhole)
  | statement htext =>
    rw [Site.finished, Site.finished, add_comm]
    apply (withHooks_conveys h hb attached htext).bind
    intro given s t htext
    apply (complete_conveys h hb hnext hinline htext).bind_last
    exact fun given s t hwhole => .pure (.statement hwhole)

theorem agree_variable (attached : Bool) :
    Agree o (b.site attached).variableName (b'.site attached).variableName := by
  rw [← (h.alike hb attached).variableName]
  exact Gen.agree_variableName o _

/-! ## Rules -/

variable (hchains : ∀ c ∈ connected b.statements, ∀ c', c.Rewords c' → CodeConveys o c c')
  (attached : Bool)
include hchains

/-! ### Conditionals -/

/-- The body of a branch. -/
theorem branch_conveys (slot : String) :
    Conveys o ((b.site attached).branch slot) ((b'.site attached).branch slot) (slotCargo o b b' slot)
      Retold := by
  have hid : (b.site attached).id = (b'.site attached).id := (h.alike hb attached).id
  have hhook : Agree o (b.site attached).branchHook (b'.site attached).branchHook :=
    Site.branchHook_related (Gen.agree_congruence o) (fun _ _ => Gen.same_settings) (.of_id hid)
  rw [Site.branch, Site.branch]
  apply Conveys.bind_agree hhook
  intro hook
  apply (chain_conveys h hb hchains attached slot).bind_last
  exact fun given body body' hbody => .pure (hbody.behind hook)

theorem conditionalBranch_conveys (i : Nat) :
    Conveys o ((b.site attached).conditionalBranch i) ((b'.site attached).conditionalBranch i)
      (slotCargo o b b' ("DO" ++ toString i)) Retold := by
  rw [Site.conditionalBranch, Site.conditionalBranch]
  apply Conveys.bind_agree ((h.paired hb attached).valueOr (Gen.agree_congruence o) _ _ _)
  intro condition
  apply (branch_conveys h hb hchains attached _).bind_last
  exact fun given body body' hbody => .pure ((hbody.behind _).ahead _)

/-- The last branch, if there is one; without a slot for it nothing comes with it. -/
theorem lastBranch_conveys :
    Conveys o (lastBranch (b.site attached) o) (lastBranch (b'.site attached) o)
      (slotCargo o b b' "ELSE") Retold := by
  rw [lastBranch, lastBranch, ← (h.alike hb attached).hasSlot]
  split
  · apply (branch_conveys h hb hchains attached _).bind_last
    exact fun given body body' hbody => .pure ((hbody.behind _).ahead _)
  · rename_i hnot
    have hnone : inSlot b.statements "ELSE" = none := by
      by_contra hsome
      obtain ⟨c, hc⟩ := Option.ne_none_iff_exists'.mp hsome
      exact hnot (Bool.or_eq_true_iff.mpr (Or.inl (hasSlot_of_inSlot_statements attached hc)))
    rw [h.slotCargo_eq_zero hnone]
    exact Conveys.pure (Retold.refl "")

theorem conditional_conveys :
    Conveys o (b.site attached).conditional (b'.site attached).conditional
      (((List.range (b.site attached).branchCount).map fun i =>
          slotCargo o b b' ("DO" ++ toString i)).sum + slotCargo o b b' "ELSE") Retold := by
  rw [conditional_eq, conditional_eq, ← (h.alike hb attached).branchCount]
  apply Conveys.options
  rw [← h.hookText_eq attached]
  apply Conveys.bind_agree ((Gen.agree_congruence o).lift ((b.site attached).hookText_bounds _))
  intro hook
  apply (Conveys.mapM_self fun i => conditionalBranch_conveys h hb hchains attached i).bind
  intro given branches branches' hbranches
  apply (lastBranch_conveys h hb hchains attached).bind
  intro given' last last' hlast
  apply Conveys.pure
  exact ((((Retold.join hbranches " else ").behind hook).append hlast).ahead _)

/-! ### Procedures -/

variable (hnext : ∀ c, b.next = some c → ∀ c', c.Rewords c' → CodeConveys o c c')
  (hinline : (b.site attached).isInline = false)
include hnext hinline

/-- The text of a procedure has the comments of its body, those of the block and those of what
    follows. -/
theorem procedureText_conveys (name : String) :
    Conveys o ((b.site attached).procedureText o name) ((b'.site attached).procedureText o name)
      (slotCargo o b b' "STACK" + ((0, bothAhead o b b') + linkCargo o b.next b'.next)) Retold := by
  have hcongruence := Gen.agree_congruence o
  have hE : ∀ a a', a = o ∧ a' = o → a = a' := fun _ _ => Gen.same_settings
  rw [Site.procedureText, Site.procedureText, ← h.hookText_eq attached, ← h.hookText_eq attached,
    ← h.hookText_eq attached, ← (h.alike hb attached).parameters]
  apply Conveys.bind_agree (hcongruence.lift ((b.site attached).hookText_bounds _))
  intro lead
  apply Conveys.bind_agree (hcongruence.lift ((b.site attached).hookText_bounds _))
  intro tail
  apply Conveys.bind_agree (Site.indentedHook_related hcongruence hE _)
  intro hooks
  apply Conveys.bind_agree (hcongruence.lift ((b.site attached).hookText_bounds _))
  intro trap
  apply Conveys.bind_agree (Site.indentedHook_related hcongruence hE _)
  intro trap
  apply (chain_conveys h hb hchains attached "STACK").bind
  intro given body body' hbody
  apply Conveys.bind_agree ((h.paired hb attached).value "RETURN" .none)
  intro value
  apply Conveys.bind_agree (hcongruence.lift (b.site attached).head.parameters_bounds)
  intro parameters
  apply Conveys.bind_agree (hcongruence.mapM fun parameter _ =>
    Site.parameterName_related hcongruence (Gen.agree_variableName o) parameter)
  intro names
  simp only [ne_eq, hbody.eq_empty_iff]
  apply complete_conveys h hb hnext hinline
  exact ((((hbody.behind _).ahead _).ahead _).ahead _)

/-- A procedure leaves what comes with it in its definition. -/
theorem defineProcedure_conveys :
    Conveys o (b.site attached).defineProcedure (b'.site attached).defineProcedure
      (slotCargo o b b' "STACK" + ((0, bothAhead o b b') + linkCargo o b.next b'.next) +
        ({Text.lower (b.head.field "NAME").shown}, 0)) fun given _ _ => given = 0 := by
  rw [Site.defineProcedure_eq, Site.defineProcedure_eq, ← (h.alike hb attached).procedureName]
  apply Conveys.options
  exact Conveys.definition fun name => procedureText_conveys h hb hchains attached hnext hinline name

/-! ### All kinds -/

variable (horderly : b.IsOrderly)
include horderly

omit hinline hnext in
/-- The rule for a kind of statement that defines no procedure gives what comes with the chains. -/
theorem statement_conveys {kind : StatementKind} (hkind : b.kind = .statement kind)
    (hcode : b.kind.definesProcedure = false) :
    Conveys o ((b.site attached).statement kind >>= fun text => pure (text.map Code.statement))
      ((b'.site attached).statement kind >>= fun text => pure (text.map Code.statement))
      (chainCargo o b b') Code.BothRetold := by
  have hcongruence := Gen.agree_congruence o
  have hpaired := h.paired (o := o) hb attached
  have hslots := chainSlots_of_statement hkind
  have hid : (b.site attached).id = (b'.site attached).id := (h.alike hb attached).id
  have hvariable := agree_variable (o := o) h hb attached
  have hplain : ∀ {m m' : Gen String}, Agree o m m' → (b.site false).branchSlots kind = [] →
      Conveys o (some <$> m >>= fun text => pure (text.map Code.statement))
        (some <$> m' >>= fun text => pure (text.map Code.statement)) (chainCargo o b b')
        Code.BothRetold := by
    intro m m' hm hnone
    rw [h.chainCargo_eq_zero horderly (hslots.trans hnone)]
    exact lines_conveys (.of_agree hm Retold.refl)
  -- Only a conditional writes chains; the other rules write values, which have no comments.
  cases kind with
  | conditional | conditionalElse =>
    rw [h.chainCargo_conditional horderly attached hslots]
    exact lines_conveys (conditional_conveys h hb hchains attached)
  | function | procedure =>
    rw [hkind] at hcode
    cases hcode
  | call => exact hplain (hpaired.callStatement hcongruence) rfl
  | append => exact hplain (hpaired.append hcongruence hvariable) rfl
  | print => exact hplain (hpaired.print hcongruence) rfl
  | assign | assignDynamic => exact hplain (hpaired.assign hcongruence hvariable) rfl
  | returnIf =>
    exact hplain (hpaired.returnIf hcongruence (fun _ _ => Gen.same_settings) (.of_id hid)) rfl

omit hinline hnext in
/-- The rule for a kind of block that defines no procedure gives what comes with the chains. -/
theorem rule_conveys (hcode : b.kind.definesProcedure = false) :
    Conveys o (b.site attached).rule (b'.site attached).rule (chainCargo o b b') Code.BothRetold := by
  have hsite : (b.site attached).kind = b.kind := rfl
  rw [Site.rule, Site.rule, ← (h.alike hb attached).kind, hsite]
  cases hkind : b.kind with
  | statement kind => exact statement_conveys h hb hchains attached horderly hkind hcode
  | value kind =>
    have hnone := chainSlots_of_isValue (b := b) (hkind ▸ rfl)
    have hexpression := (h.paired (o := o) hb attached).expression (Gen.agree_congruence o)
      (fun _ _ ho => congrArg Options.isOneBased (Gen.same_settings ho)) kind
      fun _ => agree_variable h hb attached
    rw [h.chainCargo_eq_zero horderly hnone]
    apply Conveys.bind_agree hexpression
    exact fun e => .pure (.expression e.2 (.refl e.1))

/-- A procedure has no code where it stands; what comes with it is in its definition. -/
theorem procedure_conveys (hcode : b.kind.definesProcedure = true) :
    Conveys o ((b.site attached).rule >>= (b.site attached).finished false)
      ((b'.site attached).rule >>= (b'.site attached).finished false)
      (cargo o b.standing b'.standing) Code.Retold := by
  have hkind : b.kind = .statement .function ∨ b.kind = .statement .procedure := by
    cases hkind : b.kind with
    | value kind =>
      rw [hkind] at hcode
      cases hcode
    | statement kind =>
      rw [hkind] at hcode
      cases kind with
      | function => exact Or.inl rfl
      | procedure => exact Or.inr rfl
      | conditional | conditionalElse | call | returnIf | append | print | assign | assignDynamic =>
        cases hcode
  have hrule : ∀ c : Block, c.kind = b.kind →
      (c.site attached).rule >>= (c.site attached).finished false =
        (c.site attached).defineProcedure >>= fun _ => pure (.statement "") := by
    intro c hc
    have hsite : (c.site attached).kind = b.kind := hc
    rw [Site.rule, hsite]
    rcases hkind with hkind | hkind <;>
      simp only [hkind, Site.statement, bind_assoc, pure_bind, Option.map_none] <;> rfl
  have hslots := chainSlots_procedure hkind
  have hchain : chainCargo o b b' = slotCargo o b b' "STACK" := by
    rw [h.chainCargo_eq_sum horderly.slots (List.nodup_singleton "STACK") fun slot c hc =>
      hslots ▸ horderly.read slot c hc, List.map_singleton, List.sum_singleton]
  have htotal : cargo o b.standing b'.standing = slotCargo o b b' "STACK" +
      ((0, bothAhead o b b') + linkCargo o b.next b'.next) +
        ({Text.lower (b.head.field "NAME").shown}, 0) := by
    have hself : ((b.nameOf, bothAhead o b b') : Cargo) =
        (0, bothAhead o b b') + ({Text.lower (b.head.field "NAME").shown}, 0) := by
      rw [nameOf, if_pos hcode, Prod.mk_add_mk, zero_add, add_zero]
    -- The name is counted last, behind all that is in the definition.
    rw [h.cargo_eq, hchain, hself]
    abel
  rw [hrule b rfl, hrule b' h.kind.symm, htotal]
  apply (defineProcedure_conveys h hb hchains attached hnext hinline).bind_last
  rintro _ _ _ rfl
  exact .pure (.statement (.refl ""))

/-- A block conveys what comes with it if the blocks in its chains and behind it do. -/
theorem code_conveys_of_children :
    Conveys o (b.code attached false) (b'.code attached false) (cargo o b.standing b'.standing)
      Code.Retold := by
  have henabled' : (b'.site attached).head.enabled = true :=
    (h.alike hb attached).enabled ▸ horderly.enabled
  have hstep : ∀ c : Block, (c.site attached).head.enabled = true →
      c.code attached false =
        Gen.requirePass >>= fun _ => (c.site attached).rule >>= (c.site attached).finished false := by
    intro c hc
    rw [code_eq_site_code, Site.code_eq, hc]
    rfl
  rw [hstep b horderly.enabled, hstep b' henabled']
  apply Conveys.bind_agree (Gen.agree_congruence o).requirePass
  intro _
  cases hcode : b.kind.definesProcedure with
  | true => exact procedure_conveys h hb hchains attached hnext hinline horderly hcode
  | false =>
    have htotal : cargo o b.standing b'.standing =
        chainCargo o b b' + ((0, bothAhead o b b') + linkCargo o b.next b'.next) := by
      rw [h.cargo_eq, nameOf, hcode, if_neg Bool.false_ne_true, add_left_comm]
    rw [htotal]
    apply (rule_conveys h hb hchains attached horderly hcode).bind
    intro given result result' hresult
    cases result <;> cases result'
    case some.some => exact finished_conveys h hb hnext hinline hresult
    all_goals exact hresult.elim

end

/-- An orderly tree conveys what comes with it. -/
theorem codeConveys {b b' : Block} (h : b.Rewords b') (hb : b.IsOrderlyTree) :
    CodeConveys o b b' := by
  induction b using forall_of_children generalizing b' with
  | h b ih =>
    have hchild : ∀ c ∈ b.children, ∀ c', c.Rewords c' → CodeConveys o c c' :=
      fun c hc c' hrewords => ih c hc hrewords (hb.child hc)
    intro attached hinline
    exact code_conveys_of_children h hb.isPlacedTree
      (fun c hc => hchild c (mem_children_of_statements hc)) attached
      (fun c hc => hchild c (mem_children_of_next hc)) hinline hb.isOrderly

end Block

end BlockScript
