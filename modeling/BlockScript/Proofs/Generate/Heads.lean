/-
  BlockScript.Proofs.Generate.Heads

  Trees of blocks with other heads. A change that leaves the kind, the comment and the fields that the
  rules read as they are can show in the code in three places only: in the records of the log, in the
  hooks, where the id of a block stands, and in the names of variables. If the steps for these are
  related, so is the code of the whole tree.
-/
import BlockScript.Proofs.Generate.Congruence
import BlockScript.Proofs.Generate.Placed

namespace BlockScript

/-- A change of the head of a block in the id and in the field of its variable at most. -/
structure Head.KeepsRules (f : Head → Head) : Prop where
  kind : ∀ head, (f head).kind = head.kind
  fields : ∀ head name, name ≠ "VAR" → (f head).fields.get? name = head.fields.get? name
  mutation : ∀ head, (f head).mutation = head.mutation
  comment : ∀ head, (f head).comment = head.comment
  output : ∀ head, (f head).output = head.output
  enabled : ∀ head, (f head).enabled = head.enabled

namespace Block

/-! ## Other heads -/

mutual

/-- The block with another head, as every block that hangs on it. -/
def mapHeads (f : Head → Head) : Block → Block
  | mk head values statements next =>
    mk (f head) (mapHeadsSlots f values) (mapHeadsSlots f statements) (mapHeadsLink f next)

/-- The slots with other heads of the blocks in them. -/
def mapHeadsSlots (f : Head → Head) : Slots → Slots
  | [] => []
  | (name, link) :: rest => (name, mapHeadsLink f link) :: mapHeadsSlots f rest

/-- A block with other heads, if there is a block. -/
def mapHeadsLink (f : Head → Head) : Option Block → Option Block
  | none => none
  | some b => some (mapHeads f b)

end

section
variable (f : Head → Head)

theorem head_mapHeads (b : Block) : (b.mapHeads f).head = f b.head := by
  cases b
  rfl

theorem values_mapHeads (b : Block) : (b.mapHeads f).values = mapHeadsSlots f b.values := by
  cases b
  rfl

theorem statements_mapHeads (b : Block) :
    (b.mapHeads f).statements = mapHeadsSlots f b.statements := by
  cases b
  rfl

theorem mapHeadsLink_eq_map (link : Option Block) : mapHeadsLink f link = link.map (mapHeads f) := by
  cases link <;> rfl

theorem next_mapHeads (b : Block) : (b.mapHeads f).next = b.next.map (mapHeads f) := by
  cases b
  exact mapHeadsLink_eq_map f _

theorem mapHeadsSlots_eq_map (slots : Slots) :
    mapHeadsSlots f slots = slots.map fun slot => (slot.1, slot.2.map (mapHeads f)) := by
  induction slots with
  | nil => rfl
  | cons slot rest ih =>
    obtain ⟨name, link⟩ := slot
    rw [mapHeadsSlots, mapHeadsLink_eq_map, ih, List.map_cons]

theorem inSlot_mapHeadsSlots (slots : Slots) (name : String) :
    inSlot (mapHeadsSlots f slots) name = (inSlot slots name).map (mapHeads f) := by
  rw [mapHeadsSlots_eq_map, inSlot_map rfl]

theorem map_fst_inputs_mapHeadsSlots (slots : Slots) :
    (inputs (mapHeadsSlots f slots)).map (·.1) = (inputs slots).map (·.1) := by
  rw [map_fst_inputs, map_fst_inputs, mapHeadsSlots_eq_map, List.map_map]
  rfl

mutual

theorem nested_mapHeads : ∀ b : Block, (b.mapHeads f).nested = b.nested.map (mapHeads f)
  | mk head values statements next => by
    rw [mapHeads, nested, nested, nestedInSlots_mapHeadsSlots values,
      nestedInSlots_mapHeadsSlots statements, List.map_cons, List.map_append, mapHeads]

theorem nestedInSlots_mapHeadsSlots : ∀ slots : Slots,
    nestedInSlots (mapHeadsSlots f slots) = (nestedInSlots slots).map (mapHeads f)
  | [] => by simp only [mapHeadsSlots, nestedInSlots, List.map_nil]
  | (name, link) :: rest => by
    rw [mapHeadsSlots, nestedInSlots, nestedInSlots, chain_mapHeadsLink link,
      nestedInSlots_mapHeadsSlots rest, List.map_append]

theorem chain_mapHeadsLink : ∀ link : Option Block,
    chain (mapHeadsLink f link) = (chain link).map (mapHeads f)
  | none => by simp only [mapHeadsLink, chain, List.map_nil]
  | some (mk head values statements next) => by
    rw [mapHeadsLink, mapHeads, chain, chain, nestedInSlots_mapHeadsSlots values,
      nestedInSlots_mapHeadsSlots statements, chain_mapHeadsLink next, List.map_append,
      List.map_cons, List.map_append, mapHeads]

end

end

/-! ## Code under other heads -/

variable {f : Head → Head}

theorem kind_mapHeads (hf : Head.KeepsRules f) (b : Block) : (b.mapHeads f).kind = b.kind := by
  rw [kind, head_mapHeads, hf.kind, kind]

theorem nestedComments_mapHeads (hf : Head.KeepsRules f) (b : Block) :
    (b.mapHeads f).nestedComments = b.nestedComments := by
  have hcomment : (fun c : Block => c.head.comment) ∘ mapHeads f = fun c => c.head.comment := by
    funext c
    rw [Function.comp_apply, head_mapHeads, hf.comment]
  rw [nestedComments, nestedComments, nested_mapHeads, List.map_map, hcomment]

theorem inputComments_mapHeadsSlots (hf : Head.KeepsRules f) (slots : Slots) :
    Site.inputComments (inputs (mapHeadsSlots f slots)) = Site.inputComments (inputs slots) := by
  apply Site.inputComments_congr
  induction slots with
  | nil => rfl
  | cons slot rest ih =>
    obtain ⟨name, link⟩ := slot
    cases link with
    | none => exact ih
    | some c =>
      have hcomments : Site.nestedComments (c.mapHeads f) = Site.nestedComments c := by
        rw [Site.nestedComments, Site.nestedComments, nestedComments_mapHeads hf]
      exact congrArg₂ List.cons hcomments ih

section
variable {E : Options → Options → Prop} {R : {α : Type} → Gen α → Gen α → Prop}

theorem rel_inSlot_mapHeads (hf : Head.KeepsRules f) {slots : Slots} {name : String}
    (h : ∀ c, inSlot slots name = some c → R (c.code true false) ((c.mapHeads f).code true false)) :
    Option.Rel (Input.Related R) (Site.inSlot (inputs slots) name)
      (Site.inSlot (inputs (mapHeadsSlots f slots)) name) := by
  rw [inSlot_inputs, inSlot_inputs, inSlot_mapHeadsSlots]
  cases hc : inSlot slots name with
  | none => exact .none
  | some c => exact .some ⟨(kind_mapHeads hf c).symm, h c hc⟩

variable (h : Gen.Congruence E R) (hE : ∀ o o', E o o' → o = o') (hf : Head.KeepsRules f)
  (hrecord : ∀ head event subject detail, R (Gen.record ⟨event, some head.id, subject, detail⟩)
    (Gen.record ⟨event, some (f head).id, subject, detail⟩))
  (hhooks : ∀ s t : Site, t.head = f s.head → Site.SameHooks E s t)
include h hE hf hrecord hhooks

/-- Blocks that differ in their heads have related inputs if the code of what they hold is related. -/
theorem matched_mapHeads {b : Block} (hb : ∀ c ∈ b.children, ∀ attached alone,
      R (c.code attached alone) ((c.mapHeads f).code attached alone)) (attached : Bool) :
    Site.Matched E R (b.site attached) ((b.mapHeads f).site attached) := by
  have hhead : ((b.mapHeads f).site attached).head = f (b.site attached).head := b.head_mapHeads f
  have hvalues : ((b.mapHeads f).site attached).values = inputs (mapHeadsSlots f b.values) :=
    congrArg inputs (b.values_mapHeads f)
  have hstatements :
      ((b.mapHeads f).site attached).statements = inputs (mapHeadsSlots f b.statements) :=
    congrArg inputs (b.statements_mapHeads f)
  have hfst : ((b.site attached).values.map (·.1) =
      ((b.mapHeads f).site attached).values.map (·.1)) ∧
      (b.site attached).statements.map (·.1) =
        ((b.mapHeads f).site attached).statements.map (·.1) := by
    rw [hvalues, hstatements, map_fst_inputs_mapHeadsSlots, map_fst_inputs_mapHeadsSlots]
    exact ⟨rfl, rfl⟩
  constructor
  · constructor
    case kind => exact (b.kind_mapHeads hf).symm
    case record =>
      intro event subject detail
      rw [Site.id, Site.id, hhead]
      exact hrecord _ event subject detail
    case fields =>
      intro name hname
      rw [hhead]
      exact (hf.fields _ name hname).symm
    case mutation =>
      rw [hhead]
      exact (hf.mutation _).symm
    case value =>
      intro name
      apply Site.value_related h
      rw [hvalues]
      exact rel_inSlot_mapHeads hf fun c hc => hb c (mem_children_of_inSlot_values hc) true false
  · exact hhooks _ _ hhead
  · intro name
    apply Site.chain_related h hE
    rw [hstatements]
    exact rel_inSlot_mapHeads hf fun c hc => hb c (mem_children_of_inSlot_statements hc) true false
  · exact Site.hasSlot_congr hfst.1 hfst.2
  · exact Site.slotCount_congr hfst.1 hfst.2

variable (hprocedureName : ∀ source, R (Gen.procedureName source) (Gen.procedureName source))
  (hdefine : ∀ name text, R (Gen.define name text) (Gen.define name text))
include hprocedureName hdefine

/-- The code of a tree with other heads is related to that of the tree, if the names of the variables
    and of the parameters in it are. -/
theorem code_mapHeads (b : Block)
    (hvariable : ∀ c, Within c b → c.kind.namesVariable = true → ∀ attached,
      R (c.site attached).variableName ((c.mapHeads f).site attached).variableName)
    (hparameter : ∀ c, Within c b → c.kind.definesProcedure = true → ∀ parameters,
      c.head.parameters = .ok parameters → ∀ parameter ∈ parameters,
        R (Site.parameterName parameter) (Site.parameterName parameter)) :
    ∀ attached alone, R (b.code attached alone) ((b.mapHeads f).code attached alone) := by
  induction b using forall_of_children with
  | h b ih =>
    intro attached alone
    have hb : ∀ c ∈ b.children, ∀ attached alone,
        R (c.code attached alone) ((c.mapHeads f).code attached alone) :=
      fun c hc => ih c hc (fun d hd => hvariable d (.child hc hd))
        fun d hd => hparameter d (.child hc hd)
    have hhead : ((b.mapHeads f).site attached).head = f (b.site attached).head := b.head_mapHeads f
    have hkind : ((b.mapHeads f).site attached).kind = b.kind := b.kind_mapHeads hf
    have hmatched := matched_mapHeads h hE hf hrecord hhooks hb attached
    have hcomments : R (b.site attached).comments ((b.mapHeads f).site attached).comments := by
      apply Site.comments_related h fun _ _ ho => congrArg Options.commentWrap (hE _ _ ho)
      · rw [Site.isInline, Site.isInline, Head.hasOutput, Head.hasOutput, hhead, hf.output]
        rfl
      · rw [hhead, hf.comment]
      · change Site.inputComments (inputs b.values) = Site.inputComments (inputs (b.mapHeads f).values)
        rw [values_mapHeads, inputComments_mapHeadsSlots hf]
    have hnext : R (b.site attached).nextCode ((b.mapHeads f).site attached).nextCode := by
      apply Site.nextCode_related h
      change Option.Rel _ (input b.next) (input (b.mapHeads f).next)
      rw [next_mapHeads]
      cases hc : b.next with
      | none => exact .none
      | some c =>
        exact .some ⟨(c.kind_mapHeads hf).symm, hb c (mem_children_of_next hc) true false⟩
    have hprocedure (hdefines : b.kind.definesProcedure = true) :=
      hmatched.defineProcedure h hE
        (fun parameters hparameters parameter hmem => by
          rw [Head.parameters, hhead, hf.mutation] at hparameters
          exact hparameter b .self hdefines parameters hparameters parameter hmem)
        (fun code => Site.complete_related h hcomments hnext code false) hprocedureName hdefine
    rw [code_eq_site_code, code_eq_site_code]
    apply hmatched.code h hE _ _ hcomments hnext
    · exact fun hnames => hvariable b .self (hkind ▸ hnames) attached
    · exact fun hdefines => hprocedure (hkind ▸ hdefines)
    · rw [hhead]
      exact (hf.enabled _).symm
    · rw [Head.hasOutput, Head.hasOutput, hhead, hf.output]

/-- The line of a block with other heads that nothing holds. -/
theorem topLevelLine_mapHeads (b : Block)
    (hvariable : ∀ c, Within c b → c.kind.namesVariable = true → ∀ attached,
      R (c.site attached).variableName ((c.mapHeads f).site attached).variableName)
    (hparameter : ∀ c, Within c b → c.kind.definesProcedure = true → ∀ parameters,
      c.head.parameters = .ok parameters → ∀ parameter ∈ parameters,
        R (Site.parameterName parameter) (Site.parameterName parameter)) :
    R b.topLevelLine (b.mapHeads f).topLevelLine := by
  have hcode := code_mapHeads h hE hf hrecord hhooks hprocedureName hdefine b hvariable hparameter
  have hhead := b.head_mapHeads f
  rw [topLevelLine_eq, topLevelLine_eq]
  apply h.bind (hcode false false)
  intro code
  apply lineOf_related h hE (b.kind_mapHeads hf).symm (hhooks _ _ hhead)
  rw [Head.hasOutput, Head.hasOutput, hhead, hf.output]

end

end Block

end BlockScript
