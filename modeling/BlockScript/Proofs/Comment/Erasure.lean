/-
  BlockScript.Proofs.Comment.Erasure

  Blocks with other comments, or without any. A rule sees of its block the data of the head and what
  the slots give, so value code does not depend on comments: a value that is plugged into another block
  has no comment lines, whatever stands in it.
-/
import BlockScript.Proofs.Comment.Lines
import BlockScript.Proofs.Generate.Composed
import BlockScript.Proofs.Generate.Heads

namespace BlockScript

/-! ## Blocks without comments -/

namespace Head

/-- The head of a block without its comment. -/
def uncommented (head : Head) : Head :=
  { head with comment := .null }

end Head

namespace Block

mutual

/-- The block without its comment and without those of everything that hangs on it. -/
def uncommented : Block → Block
  | mk head values statements next =>
    mk head.uncommented (uncommentedSlots values) (uncommentedSlots statements)
      (uncommentedLink next)

/-- The slots with the blocks in them without comments. -/
def uncommentedSlots : Slots → Slots
  | [] => []
  | (name, link) :: rest => (name, uncommentedLink link) :: uncommentedSlots rest

/-- A block without comments, if there is a block. -/
def uncommentedLink : Option Block → Option Block
  | none => none
  | some b => some b.uncommented

end

mutual

/-- A block without comments is the block with heads without comments. -/
theorem uncommented_eq_mapHeads : ∀ b : Block, b.uncommented = b.mapHeads Head.uncommented
  | mk head values statements next => by
    rw [uncommented, mapHeads, uncommentedSlots_eq_mapHeadsSlots values,
      uncommentedSlots_eq_mapHeadsSlots statements, uncommentedLink_eq_mapHeadsLink next]

theorem uncommentedSlots_eq_mapHeadsSlots : ∀ slots : Slots,
    uncommentedSlots slots = mapHeadsSlots Head.uncommented slots
  | [] => rfl
  | (name, link) :: rest => by
    rw [uncommentedSlots, mapHeadsSlots, uncommentedLink_eq_mapHeadsLink link,
      uncommentedSlots_eq_mapHeadsSlots rest]

theorem uncommentedLink_eq_mapHeadsLink : ∀ link : Option Block,
    uncommentedLink link = mapHeadsLink Head.uncommented link
  | none => rfl
  | some b => by rw [uncommentedLink, mapHeadsLink, uncommented_eq_mapHeads b]

end

theorem head_uncommented (b : Block) : b.uncommented.head = b.head.uncommented := by
  rw [uncommented_eq_mapHeads, head_mapHeads]

theorem kind_uncommented (b : Block) : b.uncommented.kind = b.kind := by
  rw [kind, head_uncommented]
  rfl

theorem statements_uncommented (b : Block) :
    b.uncommented.statements = uncommentedSlots b.statements := by
  cases b
  rfl

/-- No comment is nested in a block without comments. -/
theorem nestedComments_uncommented (b : Block) : b.uncommented.nestedComments = [] := by
  rw [nestedComments_eq_nil_iff, uncommented_eq_mapHeads, nested_mapHeads]
  intro c hc
  obtain ⟨d, -, rfl⟩ := List.mem_map.mp hc
  rw [head_mapHeads]
  rfl

/-! ### What stands in a block -/

/-- What is nested in a block, or in one that follows it, stands in the block. -/
theorem within_of_mem_chain (b : Block) : ∀ c ∈ chain (some b), Within c b := by
  induction b using forall_of_children with
  | h b ih =>
    obtain ⟨head, values, statements, next⟩ := b
    have hslots : ∀ slots, connected slots ⊆ (mk head values statements next).children →
        ∀ c ∈ nestedInSlots slots, Within c (mk head values statements next) := by
      intro slots hsub c hc
      obtain ⟨name, d, hd, hmem⟩ := exists_of_mem_nestedInSlots hc
      have hchild := hsub (List.mem_filterMap.mpr ⟨(name, some d), hd, rfl⟩)
      exact .child hchild (ih d hchild c hmem)
    intro c hc
    rw [chain, List.mem_append, List.mem_cons, List.mem_append] at hc
    rcases hc with (rfl | hc | hc) | hc
    · exact .self
    · exact hslots values (fun d hd => List.mem_append_left _ (List.mem_append_left _ hd)) c hc
    · exact hslots statements (fun d hd => List.mem_append_left _ (List.mem_append_right _ hd)) c hc
    · cases next with
      | none =>
        rw [chain] at hc
        exact absurd hc List.not_mem_nil
      | some d =>
        have hchild := mem_children_of_next (b := mk head values statements (some d)) rfl
        exact .child hchild (ih d hchild c hc)

theorem within_of_mem_nested {b c : Block} (h : c ∈ b.nested) : Within c b := by
  obtain ⟨head, values, statements, next⟩ := b
  apply within_of_mem_chain
  rw [chain]
  exact List.mem_append_left _ h

theorem Within.trans {a b c : Block} (h : Within a b) (h' : Within b c) : Within a c := by
  induction h' with
  | self => exact h
  | child hc _ ih => exact .child hc ih

end Block

/-! ## Blocks that rules do not tell apart -/

/-- Two blocks that differ in comments and in what stands in their slots, while all value slots give
    the same. -/
structure Site.Alike (s t : Site) : Prop where
  head : s.head.uncommented = t.head.uncommented
  value : ∀ name outer, s.value name outer = t.value name outer
  hasSlot : ∀ name, s.hasSlot name = t.hasSlot name
  slots : s.values.length + s.statements.length = t.values.length + t.statements.length

/-- Whether the rule for a kind of statement writes what stands in statement slots. -/
def StatementKind.writesChains : StatementKind → Bool
  | .conditional | .conditionalElse | .function | .procedure => true
  | .call | .returnIf | .append | .print | .assign | .assignDynamic => false

namespace Site.Alike

variable {s t : Site} (h : s.Alike t)
include h

theorem kind : s.kind = t.kind :=
  (congrArg Head.kind h.head :)

theorem id : s.id = t.id :=
  (congrArg Head.id h.head :)

theorem fields : s.head.fields = t.head.fields :=
  (congrArg Head.fields h.head :)

theorem mutation : s.head.mutation = t.head.mutation :=
  (congrArg Head.mutation h.head :)

theorem enabled : s.head.enabled = t.head.enabled :=
  (congrArg Head.enabled h.head :)

theorem hasOutput : s.head.hasOutput = t.head.hasOutput :=
  congrArg (fun head => head.output.isTruthy) h.head

omit h in
theorem trans {r : Site} (h : r.Alike s) (h' : s.Alike t) : r.Alike t where
  head := h.head.trans h'.head
  value name outer := (h.value name outer).trans (h'.value name outer)
  hasSlot name := (h.hasSlot name).trans (h'.hasSlot name)
  slots := h.slots.trans h'.slots

theorem symm : t.Alike s where
  head := h.head.symm
  value name outer := (h.value name outer).symm
  hasSlot name := (h.hasSlot name).symm
  slots := h.slots.symm

/-- Blocks that rules do not tell apart are paired, with equal values. -/
theorem paired : Site.Paired (fun m m' => m = m') s t where
  kind := h.kind
  record := Site.record_of_id .eq h.id
  fields name _ := congrArg (·.get? name) h.fields
  mutation := h.mutation
  value := h.value

theorem parameters : s.head.parameters = t.head.parameters :=
  h.paired.parameters

theorem procedureName : s.procedureName = t.procedureName :=
  h.paired.procedureName

theorem variableName : s.variableName = t.variableName := by
  rw [Site.variableName, Site.variableName, Head.field, Head.field, h.fields]

/-! ### Inputs -/

theorem valueOr (name : String) (outer : Order) (default : String) :
    s.valueOr name outer default = t.valueOr name outer default :=
  h.paired.valueOr .eq name outer default

theorem textValue (name : String) : s.textValue name = t.textValue name :=
  h.valueOr name _ _

theorem branchCount : s.branchCount = t.branchCount := by
  simp only [Site.branchCount, h.hasSlot, h.slots]

theorem branchHook : s.branchHook = t.branchHook :=
  Site.branchHook_related .eq (fun _ _ ho => ho) (.of_id h.id)

theorem withHooks (code : String) : s.withHooks code = t.withHooks code :=
  Site.withHooks_related .eq (fun _ _ ho => ho) h.kind (.of_id h.id) code

/-! ### Rules -/

theorem call : s.call = t.call :=
  h.paired.call .eq

/-- The rules for values do not tell the two blocks apart. -/
theorem expression (kind : ValueKind) : s.expression kind = t.expression kind :=
  h.paired.expression .eq (fun _ _ ho => congrArg Options.isOneBased ho) kind fun _ => h.variableName

theorem returnIf : s.returnIf = t.returnIf := by
  simp only [Site.returnIf, h.valueOr, h.branchHook, h.mutation]

/-- Neither do the rules for statements that write no chain. -/
theorem statement {kind : StatementKind} (hkind : kind.writesChains = false) :
    s.statement kind = t.statement kind := by
  cases kind with
  | conditional | conditionalElse | function | procedure => cases hkind
  | call => simp only [Site.statement, Site.callStatement, h.call]
  | returnIf => simp only [Site.statement, h.returnIf]
  | append => simp only [Site.statement, Site.append, h.variableName, h.textValue]
  | print => simp only [Site.statement, Site.print, h.textValue]
  | assign | assignDynamic => simp only [Site.statement, Site.assign, h.valueOr, h.variableName]

end Site.Alike

/-! ## Regular blocks -/

/-- Whether blocks of a kind define a procedure; they have no code where they stand. -/
def Kind.IsProcedure (kind : Kind) : Prop :=
  kind = .statement .function ∨ kind = .statement .procedure

theorem Kind.not_isProcedure_of_isValue {kind : Kind} (h : kind.isValue = true) :
    ¬ kind.IsProcedure := by
  rintro (rfl | rfl) <;> cases h

/-- A block that yields a value if and only if its kind does, with values that nothing follows in its
    value slots and statements in its chains. Nothing follows a procedure, and the comment is a
    text. -/
structure Block.IsRegular (b : Block) : Prop where
  output : b.head.output = .bool b.kind.isValue
  comment : b.head.HasTextComment
  values : ∀ c ∈ connected b.values, c.kind.isValue = true ∧ c.next = none
  statements : ∀ c ∈ connected b.statements, c.kind.isValue = false
  next : ∀ c, b.next = some c → c.kind.isValue = false
  procedure : b.kind.IsProcedure → b.next = none

/-- A block that is regular, as everything that hangs on it. -/
def Block.IsRegularTree (b : Block) : Prop :=
  ∀ c, Within c b → c.IsRegular

namespace Block

theorem IsRegularTree.isRegular {b : Block} (h : b.IsRegularTree) : b.IsRegular :=
  h b .self

theorem IsRegularTree.child {b c : Block} (h : b.IsRegularTree) (hc : c ∈ b.children) :
    c.IsRegularTree :=
  fun d hd => h d (.child hc hd)

/-- A regular tree is put together from regular trees. -/
theorem isRegularTree_mk {head : Head} {values statements : Slots} {next : Option Block}
    (houtput : head.output = .bool head.kind.isValue) (hcomment : head.HasTextComment)
    (hvalues : ∀ c ∈ connected values, c.kind.isValue = true ∧ c.next = none ∧ c.IsRegularTree)
    (hstatements : ∀ c ∈ connected statements, c.kind.isValue = false ∧ c.IsRegularTree)
    (hnext : ∀ c ∈ next, c.kind.isValue = false ∧ c.IsRegularTree)
    (hprocedure : head.kind.IsProcedure → next = none) :
    (mk head values statements next).IsRegularTree := by
  apply forall_within_of_children
  case hself =>
    exact ⟨houtput, hcomment, fun c hc => ⟨(hvalues c hc).1, (hvalues c hc).2.1⟩,
      fun c hc => (hstatements c hc).1, fun c hc => (hnext c hc).1, hprocedure⟩
  case hchildren =>
    exact forall_children_mk (fun c hc => (hvalues c hc).2.2) (fun c hc => (hstatements c hc).2)
      fun c hc => (hnext c hc).2

/-- A regular block is placed. -/
theorem IsRegularTree.isPlacedTree {b : Block} (h : b.IsRegularTree) : b.IsPlacedTree := by
  intro c hc
  have hregular := h c hc
  exact ⟨hregular.output, hregular.values, hregular.statements, hregular.next⟩

/-! ## Code of values -/

/-- What follows a block, with its code. -/
theorem site_next (b : Block) (attached : Bool) :
    (b.site attached).next = b.next.map fun c => ⟨c, c.code true false⟩ := by
  change input b.next = _
  cases b.next <;> rfl

theorem site_next_uncommented (b : Block) (attached : Bool) :
    (b.uncommented.site attached).next =
      b.next.map fun c => ⟨c.uncommented, c.uncommented.code true false⟩ := by
  have hall : uncommented = mapHeads Head.uncommented := funext uncommented_eq_mapHeads
  rw [site_next, hall, next_mapHeads, Option.map_map]
  rfl

theorem inSlot_inputs_uncommented (slots : Slots) (name : String) :
    Site.inSlot (inputs (uncommentedSlots slots)) name =
      (inSlot slots name).map fun c => ⟨c.uncommented, c.uncommented.code true false⟩ := by
  have hall : uncommented = mapHeads Head.uncommented := funext uncommented_eq_mapHeads
  rw [inSlot_inputs, uncommentedSlots_eq_mapHeadsSlots, inSlot_mapHeadsSlots, Option.map_map, hall]
  rfl

theorem comments_uncommented (b : Block) (attached : Bool) :
    (b.uncommented.site attached).comments = pure "" :=
  Site.comments_eq_pure b.nestedComments_uncommented attached

end Block

/-! ### Other comments -/

/-- A change of the comment of a head at most. -/
def Head.Recomments (f : Head → Head) : Prop :=
  ∀ head, (f head).uncommented = head.uncommented

namespace Head.Recomments

open Block

variable {f : Head → Head} (hf : Head.Recomments f)
include hf

theorem kind (b : Block) : (b.mapHeads f).kind = b.kind := by
  rw [Block.kind, head_mapHeads]
  exact (congrArg Head.kind (hf b.head) :)

/-- If the values in it give the same with other comments, a block is alike with them. -/
theorem alike {b : Block}
    (h : ∀ c ∈ connected b.values, (c.mapHeads f).code true false = c.code true false)
    (attached : Bool) : ((b.mapHeads f).site attached).Alike (b.site attached) := by
  have hvalues := map_fst_inputs_mapHeadsSlots f b.values
  have hstatements := map_fst_inputs_mapHeadsSlots f b.statements
  rw [← values_mapHeads] at hvalues
  rw [← statements_mapHeads] at hstatements
  constructor
  · change (b.mapHeads f).head.uncommented = b.head.uncommented
    rw [head_mapHeads]
    exact hf b.head
  · -- A value slot holds the same block with other comments, which gives the same.
    intro name outer
    apply Site.value_related .eq
    change Option.Rel _ (Site.inSlot (inputs (b.mapHeads f).values) name)
      (Site.inSlot (inputs b.values) name)
    rw [values_mapHeads, inSlot_inputs, inSlot_inputs, inSlot_mapHeadsSlots]
    cases hc : inSlot b.values name with
    | none => exact .none
    | some c =>
      have hmem : c ∈ connected b.values := List.mem_filterMap.mpr ⟨_, mem_of_inSlot hc, rfl⟩
      exact .some ⟨hf.kind c, h c hmem⟩
  · exact Site.hasSlot_congr hvalues hstatements
  · exact Site.slotCount_congr hvalues hstatements

/-- A value that is plugged into another block gives the same with other comments on it and in it. -/
theorem code_of_value {b : Block} (h : b.IsPlacedTree) (hkind : b.kind.isValue = true)
    (hnext : b.next = none) (alone : Bool) : (b.mapHeads f).code true alone = b.code true alone := by
  induction b using forall_of_children generalizing alone with
  | h b ih =>
    have hvalues : ∀ c ∈ connected b.values, (c.mapHeads f).code true false = c.code true false := by
      intro c hc
      have hchild := mem_children_of_values hc
      obtain ⟨hvalue, hlast⟩ := h.isPlaced.values c hc
      exact ih c hchild (h.child hchild) hvalue hlast false
    have halike := hf.alike hvalues true
    have hinline : (b.site true).isInline = true := by
      change (b.head.hasOutput && true) = true
      rw [h.isPlaced.hasOutput, hkind]
      rfl
    have hinline' : ((b.mapHeads f).site true).isInline = true := by
      rw [Site.isInline, halike.hasOutput]
      exact hinline
    have hlast : (b.site true).next = none := by
      rw [site_next, hnext]
      rfl
    have hlast' : ((b.mapHeads f).site true).next = none := by
      rw [site_next, next_mapHeads, hnext]
      rfl
    have hcode : ((b.mapHeads f).site true).nextCode = (b.site true).nextCode := by
      rw [Site.nextCode, Site.nextCode, hlast, hlast']
    have hcomplete : ∀ text, ((b.mapHeads f).site true).complete text alone =
        (b.site true).complete text alone := by
      intro text
      rw [Site.complete_eq_pure hlast' (Site.comments_eq_pure_of_inline hinline'),
        Site.complete_eq_pure hlast (Site.comments_eq_pure_of_inline hinline)]
    have hrule : ((b.mapHeads f).site true).rule = (b.site true).rule := by
      have hkind' : (b.site true).kind = b.kind := rfl
      rw [Site.rule, Site.rule, halike.kind, hkind']
      cases hb : b.kind with
      | value kind => simp only [halike.expression]
      | statement kind =>
        rw [hb] at hkind
        cases hkind
    -- What is left of the code of the site is what the two blocks have in common.
    rw [code_eq_site_code, code_eq_site_code]
    simp only [Site.code, halike.enabled, halike.id, halike.kind, halike.hasOutput, hrule, hcode,
      hcomplete, halike.withHooks]

end Head.Recomments

theorem Head.recomments_uncommented : Head.Recomments Head.uncommented :=
  fun _ => rfl

namespace Block

/-- If the values in it give the same without comments, a block is alike without them. -/
theorem alike_uncommented {b : Block}
    (h : ∀ c ∈ connected b.values, c.uncommented.code true false = c.code true false)
    (attached : Bool) : (b.uncommented.site attached).Alike (b.site attached) := by
  simp only [uncommented_eq_mapHeads] at h ⊢
  exact Head.recomments_uncommented.alike h attached

/-- A value that is plugged into another block gives the same without the comments on it and in
    it. -/
theorem code_uncommented_of_value {b : Block} (h : b.IsRegularTree) (hkind : b.kind.isValue = true)
    (hnext : b.next = none) (alone : Bool) : b.uncommented.code true alone = b.code true alone := by
  rw [uncommented_eq_mapHeads]
  exact Head.recomments_uncommented.code_of_value h.isPlacedTree hkind hnext alone

end Block

end BlockScript
