/-
  BlockScript.Proofs.Disabled.Muting

  What disabled blocks hold is not looked at where they stand in a chain or on their own: neither their
  comments nor those of anything in their slots reach the program, at any depth of chains. The comments
  ahead of a block that is enabled are collected from all that is nested in its value slots, so those of
  a disabled block in a value slot do reach it.
-/
import BlockScript.Proofs.Comment.Erasure
import BlockScript.Proofs.Session.Isolation

namespace BlockScript

open Gen (Congruence)

/-! ## Blocks with muted chains -/

namespace Block

mutual

/-- The block with the disabled blocks of its chains muted: the comments on them and on all that is in
    their slots are left out. What is in the value slots of an enabled block stays as it is. -/
def muted : Block → Block
  | mk head values statements next =>
    if head.enabled then mk head values (mutedSlots statements) (mutedLink next)
    else
      mk head.uncommented (uncommentedSlots values) (uncommentedSlots statements) (mutedLink next)

/-- The slots with their chains muted. -/
def mutedSlots : Slots → Slots
  | [] => []
  | (name, link) :: rest => (name, mutedLink link) :: mutedSlots rest

/-- A muted chain, if there is one. -/
def mutedLink : Option Block → Option Block
  | none => none
  | some b => some b.muted

end

theorem mutedLink_eq_map (link : Option Block) : mutedLink link = link.map muted := by
  cases link <;> rfl

theorem mutedSlots_eq_map (slots : Slots) :
    mutedSlots slots = slots.map fun slot => (slot.1, slot.2.map muted) := by
  induction slots with
  | nil => rfl
  | cons slot rest ih =>
    obtain ⟨name, link⟩ := slot
    rw [mutedSlots, mutedLink_eq_map, ih, List.map_cons]

/-- An enabled block keeps its comment and its values. -/
theorem muted_of_enabled {b : Block} (h : b.head.enabled = true) :
    b.muted = mk b.head b.values (mutedSlots b.statements) (b.next.map muted) := by
  obtain ⟨head, values, statements, next⟩ := b
  have henabled : head.enabled = true := h
  rw [muted, if_pos henabled, mutedLink_eq_map]
  rfl

/-- A disabled block keeps the chain that follows it, and no comments. -/
theorem muted_of_disabled {b : Block} (h : b.head.enabled = false) :
    b.muted = mk b.head.uncommented (uncommentedSlots b.values) (uncommentedSlots b.statements)
      (b.next.map muted) := by
  obtain ⟨head, values, statements, next⟩ := b
  have hdisabled : ¬ head.enabled = true := ne_true_of_eq_false h
  rw [muted, if_neg hdisabled, mutedLink_eq_map]
  rfl

theorem head_muted (b : Block) :
    b.muted.head = if b.head.enabled then b.head else b.head.uncommented := by
  cases h : b.head.enabled with
  | true => rw [muted_of_enabled h, head, if_pos rfl]
  | false => rw [muted_of_disabled h, head, if_neg Bool.false_ne_true]

/-- Whether a block is muted shows in its comment only. -/
theorem uncommented_head_muted (b : Block) : b.muted.head.uncommented = b.head.uncommented := by
  rw [head_muted]
  split <;> rfl

theorem kind_muted (b : Block) : b.muted.kind = b.kind :=
  (congrArg Head.kind b.uncommented_head_muted :)

theorem id_muted (b : Block) : b.muted.id = b.id :=
  (congrArg Head.id b.uncommented_head_muted :)

theorem enabled_muted (b : Block) : b.muted.head.enabled = b.head.enabled :=
  (congrArg Head.enabled b.uncommented_head_muted :)

theorem hasOutput_muted (b : Block) : b.muted.head.hasOutput = b.head.hasOutput :=
  congrArg (fun head => head.output.isTruthy) b.uncommented_head_muted

theorem next_muted (b : Block) : b.muted.next = b.next.map muted := by
  cases h : b.head.enabled with
  | true => rw [muted_of_enabled h, next]
  | false => rw [muted_of_disabled h, next]

theorem inSlot_mutedSlots (slots : Slots) (name : String) :
    inSlot (mutedSlots slots) name = (inSlot slots name).map muted := by
  rw [mutedSlots_eq_map, inSlot_map rfl]

theorem map_fst_inputs_mutedSlots (slots : Slots) :
    (inputs (mutedSlots slots)).map (·.1) = (inputs slots).map (·.1) := by
  rw [map_fst_inputs, map_fst_inputs, mutedSlots_eq_map, List.map_map]
  rfl

/-! ## Code -/

/-- Muted chains in the statement slots give what the chains give. -/
theorem chain_muted {b : Block}
    (h : ∀ c ∈ b.children, ∀ attached alone, c.muted.code attached alone = c.code attached alone)
    (name : String) :
    Option.Rel (Input.Related fun m m' => m = m') (Site.inSlot (inputs (mutedSlots b.statements)) name)
      (Site.inSlot (inputs b.statements) name) := by
  rw [inSlot_inputs, inSlot_inputs, inSlot_mutedSlots]
  cases hc : inSlot b.statements name with
  | none => exact .none
  | some c => exact .some ⟨c.kind_muted, h c (mem_children_of_inSlot_statements hc) true false⟩

theorem nextCode_muted {b : Block}
    (h : ∀ c ∈ b.children, ∀ attached alone, c.muted.code attached alone = c.code attached alone)
    (attached : Bool) : (b.muted.site attached).nextCode = (b.site attached).nextCode := by
  rw [nextCode_site, nextCode_site, next_muted]
  cases hc : b.next with
  | none => rfl
  | some c => exact h c (mem_children_of_next hc) true false

/-- An enabled block with muted chains has the inputs of the block. -/
theorem matched_muted {b : Block} (henabled : b.head.enabled = true)
    (h : ∀ c ∈ b.children, ∀ attached alone, c.muted.code attached alone = c.code attached alone)
    (attached : Bool) :
    Site.Matched Eq (fun m m' => m = m') (b.muted.site attached) (b.site attached) := by
  have hnames := map_fst_inputs_mutedSlots b.statements
  rw [muted_of_enabled henabled]
  exact
    { kind := rfl, record := fun _ _ _ => rfl, fields := fun _ _ => rfl, mutation := rfl
      hooks := .of_id rfl
      value := fun _ _ => rfl
      chain := fun name => Site.chain_related .eq (fun _ _ ho => ho) (chain_muted h name)
      hasSlot := Site.hasSlot_congr rfl hnames
      slots := Site.slotCount_congr rfl hnames }

/-- A muted block has the code of the block. -/
theorem code_muted (b : Block) : ∀ attached alone,
    b.muted.code attached alone = b.code attached alone := by
  induction b using forall_of_children with
  | h b ih =>
    intro attached alone
    have hnext := nextCode_muted ih attached
    rw [code_eq_site_code, code_eq_site_code]
    cases henabled : b.head.enabled with
    | false =>
      -- The block is passed over, so only its name, its kind and what follows it are asked for.
      have hskip : (b.site attached).head.enabled = false := henabled
      have hskip' : (b.muted.site attached).head.enabled = false := b.enabled_muted.trans henabled
      have hid : (b.muted.site attached).id = (b.site attached).id := b.id_muted
      have hkind : (b.muted.site attached).kind = (b.site attached).kind := b.kind_muted
      rw [Site.code_eq, Site.code_eq, hskip, hskip', Site.passedOver, Site.passedOver, hid, hkind,
        hnext]
      rfl
    | true =>
      have hmatched := matched_muted henabled ih attached
      have hcomments : (b.muted.site attached).comments = (b.site attached).comments := by
        rw [muted_of_enabled henabled]
        rfl
      have hcomplete : ∀ code, (b.muted.site attached).complete code false =
          (b.site attached).complete code false :=
        fun code => Site.complete_related .eq hcomments hnext code false
      have hvariable : (b.muted.site attached).variableName = (b.site attached).variableName := by
        rw [muted_of_enabled henabled]
        rfl
      apply hmatched.code .eq (fun _ _ ho => ho) b.enabled_muted b.hasOutput_muted hcomments hnext
        fun _ => hvariable
      intro _
      exact hmatched.defineProcedure .eq (fun _ _ ho => ho) (fun _ _ _ _ => rfl) hcomplete
        (fun _ => rfl) fun _ _ => rfl

/-- A muted block that nothing holds has the line of the block. -/
theorem topLevelLine_muted (b : Block) : b.muted.topLevelLine = b.topLevelLine := by
  rw [topLevelLine_eq, topLevelLine_eq, code_muted]
  refine congrArg (bind (b.code false false)) (funext fun code => ?_)
  exact lineOf_related .eq (fun _ _ ho => ho) b.kind_muted (.of_id b.id_muted) b.hasOutput_muted
    code.text

end Block

/-! ## Programs -/

namespace Workspace

/-- The workspace with its chains muted. -/
def muted (w : Workspace) : Workspace :=
  { w with blocks := w.blocks.map Block.muted }

/-- Under all settings a workspace comes to the same program, or to the same fault, without the comments
    on its disabled blocks and on all that is in their slots, but for what is in a value slot of an
    enabled block. -/
theorem programText_muted (w : Workspace) (o : Options) :
    w.muted.programText o = w.programText o := by
  have hlines : w.muted.blocks.mapM Block.topLevelLine = w.blocks.mapM Block.topLevelLine := by
    rw [muted, List.mapM_map]
    exact congrArg (fun line => w.blocks.mapM line) (funext Block.topLevelLine_muted)
  have hprogram : Session.program w.muted = Session.program w := by
    rw [Session.program, Session.program, Session.mainText, Session.mainText, hlines]
  rw [programText_eq, programText_eq, hprogram]
  rfl

end Workspace

/-! ### A disabled value with a comment -/

/-- A disabled text with or without a comment, in the slot of a statement that shows it. -/
def silencedText (comment : Json) : Workspace :=
  ⟨[], [.mk ⟨.statement .print, "p", [], .null, .bool false, true, []⟩
    [("TEXT", some (.mk ⟨.value .text, "t", [(.str "TEXT", .str "a")], comment, .bool true, false, []⟩
      [] [] none))] [] none], .default⟩

/-- The comment of a disabled value is among the lines ahead of the statement that holds it. -/
theorem programText_silencedText :
    (silencedText (.str "c")).programText .default = .ok "// c\nwindow.alert('');\n" ∧
    (silencedText .null).programText .default = .ok "window.alert('');\n" := by
  constructor <;> with_unfolding_all rfl

end BlockScript
