/-
  BlockScript.Proofs.Disabled.Pruning

  Blocks without the disabled ones among what hangs on them. A disabled statement is cut out of its
  chain, a disabled value leaves its slot empty. Comments go ahead of a block also for what is nested
  in its value slots, whether that is disabled or not; these comments stay only if no disabled block
  has any.
-/
import BlockScript.Proofs.Generate.Placed

namespace BlockScript

namespace Block

mutual

/-- What is left of a chain that a block begins: its first block that is enabled, if there is one. A
    value in a slot is a chain of one block. -/
def remaining : Block → Option Block
  | mk head values statements next =>
    if head.enabled then
      some (mk head (prunedSlots values) (prunedSlots statements) (prunedLink next))
    else prunedLink next

/-- The same slots, each with what is left of its chain. -/
def prunedSlots : Slots → Slots
  | [] => []
  | (name, link) :: rest => (name, prunedLink link) :: prunedSlots rest

/-- What is left of a chain, if there is one. -/
def prunedLink : Option Block → Option Block
  | none => none
  | some b => b.remaining

end

/-- The block without the disabled blocks among what hangs on it. -/
def pruned : Block → Block
  | mk head values statements next =>
    mk head (prunedSlots values) (prunedSlots statements) (prunedLink next)

/-! ## Parts -/

theorem head_pruned (b : Block) : b.pruned.head = b.head := by
  cases b
  rfl

theorem values_pruned (b : Block) : b.pruned.values = prunedSlots b.values := by
  cases b
  rfl

theorem statements_pruned (b : Block) : b.pruned.statements = prunedSlots b.statements := by
  cases b
  rfl

theorem next_pruned (b : Block) : b.pruned.next = prunedLink b.next := by
  cases b
  rfl

theorem remaining_of_enabled {b : Block} (h : b.head.enabled = true) :
    b.remaining = some b.pruned := by
  cases b
  exact if_pos h

theorem remaining_of_disabled {b : Block} (h : b.head.enabled = false) :
    b.remaining = prunedLink b.next := by
  cases b
  exact if_neg (ne_true_of_eq_false h)

theorem prunedSlots_eq_map (slots : Slots) :
    prunedSlots slots = slots.map fun slot => (slot.1, prunedLink slot.2) := by
  induction slots with
  | nil => rfl
  | cons slot rest ih =>
    obtain ⟨name, link⟩ := slot
    rw [prunedSlots, ih, List.map_cons]

theorem inSlot_prunedSlots (slots : Slots) (name : String) :
    inSlot (prunedSlots slots) name = prunedLink (inSlot slots name) := by
  rw [prunedSlots_eq_map, inSlot_map rfl]

theorem map_fst_inputs_prunedSlots (slots : Slots) :
    (inputs (prunedSlots slots)).map (·.1) = (inputs slots).map (·.1) := by
  rw [map_fst_inputs, map_fst_inputs, prunedSlots_eq_map, List.map_map]
  rfl

/-! ## Comments -/

/-- The comments of blocks that count as given. -/
def commentsOf (blocks : List Block) : List Json :=
  (blocks.map (·.head.comment)).filter (·.isTruthy)

theorem commentsOf_append (blocks more : List Block) :
    commentsOf (blocks ++ more) = commentsOf blocks ++ commentsOf more := by
  rw [commentsOf, List.map_append, List.filter_append]
  rfl

theorem commentsOf_cons (b : Block) (blocks : List Block) :
    commentsOf (b :: blocks) = commentsOf [b] ++ commentsOf blocks :=
  commentsOf_append [b] blocks

/-- A block in which no disabled block has comments on it or in it. -/
def IsQuiet (b : Block) : Prop :=
  ∀ c ∈ b.nested, c.head.enabled = false → c.nestedComments = []

/-- What is in the chain of a slot is nested in the slots. -/
theorem chain_subset_nestedInSlots {slots : Slots} {name : String} {link : Option Block}
    (h : (name, link) ∈ slots) : chain link ⊆ nestedInSlots slots := by
  induction slots with
  | nil => exact absurd h List.not_mem_nil
  | cons slot rest ih =>
    obtain ⟨slotName, slotLink⟩ := slot
    intro b hb
    rw [nestedInSlots, List.mem_append]
    rcases List.mem_cons.mp h with heq | hrest
    · obtain ⟨rfl, rfl⟩ := Prod.mk.inj heq
      exact Or.inl hb
    · exact Or.inr (ih hrest hb)

theorem commentsOf_prunedSlots {slots : Slots}
    (h : ∀ c ∈ connected slots, commentsOf (chain (c.remaining)) =
      commentsOf (chain (some c))) :
    commentsOf (nestedInSlots (prunedSlots slots)) = commentsOf (nestedInSlots slots) := by
  induction slots with
  | nil => rfl
  | cons slot rest ih =>
    obtain ⟨name, link⟩ := slot
    rw [prunedSlots, nestedInSlots, nestedInSlots, commentsOf_append, commentsOf_append]
    cases link with
    | none =>
      rw [prunedLink, ih h]
    | some c =>
      rw [prunedLink, h c List.mem_cons_self, ih fun d hd => h d (List.mem_cons_of_mem c hd)]

/-- What is left of a chain has its comments, if no disabled block has any. -/
theorem commentsOf_remaining (b : Block)
    (h : ∀ c ∈ chain (some b), c.head.enabled = false → c.nestedComments = []) :
    commentsOf (chain b.remaining) = commentsOf (chain (some b)) := by
  induction b using forall_of_children with
  | h b ih =>
    have hnext : commentsOf (chain (prunedLink b.next)) = commentsOf (chain b.next) := by
      cases hc : b.next with
      | none => rfl
      | some c =>
        apply ih c (mem_children_of_next hc)
        intro d hd
        apply h d
        rw [chain_some, hc]
        exact List.mem_append_right _ hd
    have hslots : ∀ slots, connected slots ⊆ b.children → nestedInSlots slots ⊆ b.nested →
        commentsOf (nestedInSlots (prunedSlots slots)) = commentsOf (nestedInSlots slots) := by
      intro slots hchildren hnested
      apply commentsOf_prunedSlots
      intro c hc
      apply ih c (hchildren hc)
      intro d hd
      obtain ⟨⟨name, link⟩, hslot, hlink⟩ := List.mem_filterMap.mp hc
      obtain rfl : link = some c := hlink
      apply h d
      rw [chain_some]
      exact List.mem_append_left _ (hnested (chain_subset_nestedInSlots hslot hd))
    cases henabled : b.head.enabled with
    | false =>
      have hself : commentsOf b.nested = [] := by
        apply h b _ henabled
        rw [chain_some]
        exact List.mem_append_left _ b.mem_nested_self
      rw [remaining_of_disabled henabled, hnext, chain_some, commentsOf_append, hself]
      rfl
    | true =>
      have hvalues := hslots b.values
        (fun c hc => List.mem_append_left _ (List.mem_append_left _ hc)) (by
          rw [nested_eq]
          exact fun d hd => List.mem_cons_of_mem _ (List.mem_append_left _ hd))
      have hstatements := hslots b.statements
        (fun c hc => List.mem_append_left _ (List.mem_append_right _ hc)) (by
          rw [nested_eq]
          exact fun d hd => List.mem_cons_of_mem _ (List.mem_append_right _ hd))
      have hself : commentsOf [b.pruned] = commentsOf [b] := by
        rw [commentsOf, commentsOf, List.map_singleton, List.map_singleton, head_pruned]
      rw [remaining_of_enabled henabled, chain_some, chain_some, nested_eq, nested_eq, next_pruned,
        values_pruned, statements_pruned, List.cons_append, List.cons_append,
        commentsOf_cons, commentsOf_cons b]
      simp only [commentsOf_append, hself, hvalues, hstatements, hnext]

/-- A value in a slot that is left has the comments of the slot; an emptied slot had none. -/
theorem nestedComments_remaining {b : Block} (h : b.IsQuiet) (hnext : b.next = none) :
    match b.remaining with
    | some c => Site.nestedComments c = Site.nestedComments b
    | none => Site.nestedComments b = .ok "" := by
  have hchain : chain (some b) = b.nested := chain_eq_nested hnext
  have hcomments : commentsOf (chain b.remaining) = b.nestedComments := by
    rw [commentsOf_remaining b (hchain ▸ h), hchain]
    rfl
  cases henabled : b.head.enabled with
  | false =>
    rw [remaining_of_disabled henabled, hnext] at hcomments ⊢
    have hnone : b.nestedComments = [] := by
      rw [← hcomments, prunedLink, chain]
      rfl
    simp only [prunedLink, Site.nestedComments, hnone]
    rfl
  | true =>
    have hlast : b.pruned.next = none := by rw [next_pruned, hnext, prunedLink]
    rw [remaining_of_enabled henabled, chain_eq_nested hlast] at hcomments
    have hsame : b.pruned.nestedComments = b.nestedComments := hcomments
    simp only [remaining_of_enabled henabled, Site.nestedComments, hsame]

end Block

namespace Site

/-- The comment lines of the first slot go ahead of those of the others. -/
theorem inputComments_cons (name : String) (input : Input) (rest : List (String × Option Input)) :
    inputComments ((name, some input) :: rest) = (do
      let text ← nestedComments input.block
      let more ← inputComments rest
      return inputComments.commentLines' text ++ more) := by
  simp only [inputComments, List.filterMap_cons, List.mapM_cons]
  cases nestedComments input.block with
  | error fault => rfl
  | ok text =>
    cases List.mapM (fun input => nestedComments input.block) (rest.filterMap (·.2)) with
    | error fault => rfl
    | ok texts =>
      simp only [bind, Except.bind, pure, Except.pure, List.map_cons, String.join_cons]

/-- The slots have the same comment lines without what is disabled, if that has no comments. -/
theorem inputComments_prunedSlots {slots : Slots}
    (h : ∀ c ∈ Block.connected slots, c.IsQuiet ∧ c.next = none) :
    inputComments (Block.inputs (Block.prunedSlots slots)) = inputComments (Block.inputs slots) := by
  induction slots with
  | nil => rfl
  | cons slot rest ih =>
    obtain ⟨name, link⟩ := slot
    rw [Block.prunedSlots, Block.inputs, Block.inputs]
    cases link with
    | none => exact ih h
    | some c =>
      obtain ⟨hquiet, hnext⟩ := h c List.mem_cons_self
      have hrest := ih fun d hd => h d (List.mem_cons_of_mem c hd)
      have hcomments := Block.nestedComments_remaining hquiet hnext
      rw [Block.prunedLink]
      cases hleft : c.remaining with
      | some d =>
        rw [hleft] at hcomments
        rw [Block.input, Block.input, inputComments_cons, inputComments_cons, hrest]
        simp only at hcomments ⊢
        rw [hcomments]
      | none =>
        rw [hleft] at hcomments
        have hempty : inputComments ((name, none) :: Block.inputs (Block.prunedSlots rest)) =
            inputComments (Block.inputs (Block.prunedSlots rest)) := rfl
        simp only at hcomments
        rw [Block.input, Block.input, inputComments_cons, hempty, hrest]
        simp only [hcomments]
        cases inputComments (Block.inputs rest) with
        | error fault => rfl
        | ok more => exact congrArg Except.ok (String.empty_append).symm

end Site

end BlockScript
