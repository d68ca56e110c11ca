/-
  BlockScript.Proofs.Disabled.Program

  A program with disabled blocks is the program without them. The two passes differ in their logs
  only: the log tells of every block that is passed over. A disabled value that nothing holds is no
  different if no enabled block follows it; otherwise the code behind it stands as a value.
-/
import BlockScript.Proofs.Disabled.Pruning
import BlockScript.Proofs.Generate.Mirroring

namespace BlockScript

open Gen (Lockstep)

/-! ## Code of blocks -/

namespace Block

variable {o : Options}

/-- What is to be shown of every block: the chain that it begins gives the same without disabled
    blocks. Whether another block holds it makes a difference for a value only. -/
def Mirrored (o : Options) (b : Block) : Prop :=
  ∀ attached attached', (b.kind.isValue = true → attached = attached') →
    Lockstep Pass.Mirrors o (b.code attached false) (linkCode attached' b.remaining) Eq

/-- A tree in whose value slots no disabled block has comments. -/
def IsQuietTree (b : Block) : Prop :=
  ∀ c, Within c b → ∀ v ∈ connected c.values, v.IsQuiet

theorem IsQuietTree.child {b c : Block} (h : b.IsQuietTree) (hc : c ∈ b.children) :
    c.IsQuietTree :=
  fun d hd => h d (.child hc hd)

/-- The kind of what is left of a value is that of the value. -/
theorem kind_of_remaining {b c : Block} (hnext : b.next = none) (h : b.remaining = some c) :
    c.kind = b.kind := by
  cases henabled : b.head.enabled with
  | false =>
    rw [remaining_of_disabled henabled, hnext] at h
    cases h
  | true =>
    rw [remaining_of_enabled henabled] at h
    obtain rfl := Option.some.inj h
    exact congrArg Head.kind b.head_pruned

section
variable {b : Block} {attached attached' : Bool}

/-- A value slot gives the same, also where it is emptied: then it gives what the code of the disabled
    block comes to. -/
theorem value_mirrors (h : b.IsPlaced) (hb : ∀ c ∈ b.children, c.Mirrored o) (name : String)
    (outer : Order) :
    Lockstep Pass.Mirrors o ((b.site attached).value name outer)
      ((b.pruned.site attached').value name outer) Eq := by
  have hslot : Site.inSlot (b.site attached).values name =
      (inSlot b.values name).map fun c => ⟨c, c.code true false⟩ := inSlot_inputs b.values name
  have hpruned : Site.inSlot (b.pruned.site attached').values name =
      (prunedLink (inSlot b.values name)).map fun c => ⟨c, c.code true false⟩ := by
    rw [← inSlot_prunedSlots, ← values_pruned]
    exact inSlot_inputs b.pruned.values name
  rw [Site.value_eq, Site.value_eq, hslot, hpruned]
  cases hc : inSlot b.values name with
  | none => exact .pure rfl
  | some c =>
    obtain ⟨hkind, hnext⟩ := h.values c (List.mem_filterMap.mpr ⟨_, mem_of_inSlot hc, rfl⟩)
    have hcode := hb c (mem_children_of_inSlot_values hc) true true fun _ => rfl
    have hplugged : Lockstep Pass.Mirrors o (c.code true false >>= Site.plugged c.kind outer)
        (linkCode true c.remaining >>= Site.plugged c.kind outer) Eq :=
      hcode.bind fun code _ hsame => hsame ▸ Site.plugged_related (Gen.mirrors_congruence o) _ _ code
    rw [prunedLink]
    cases hleft : c.remaining with
    | none =>
      rw [hleft] at hplugged
      exact hplugged
    | some d =>
      rw [hleft] at hplugged
      simp only [Option.map_some, kind_of_remaining hnext hleft]
      exact hplugged

/-- So does a statement slot. What is left of its chain may be of another kind, but it is no value
    either. -/
theorem chain_mirrors (h : b.IsPlacedTree) (hb : ∀ c ∈ b.children, c.Mirrored o) (name : String) :
    Lockstep Pass.Mirrors o ((b.site attached).chain name) ((b.pruned.site attached').chain name)
      Eq := by
  have hslot : Site.inSlot (b.site attached).statements name =
      (inSlot b.statements name).map fun c => ⟨c, c.code true false⟩ :=
    inSlot_inputs b.statements name
  have hpruned : Site.inSlot (b.pruned.site attached').statements name =
      (prunedLink (inSlot b.statements name)).map fun c => ⟨c, c.code true false⟩ := by
    rw [← inSlot_prunedSlots, ← statements_pruned]
    exact inSlot_inputs b.pruned.statements name
  rw [Site.chain_eq, Site.chain_eq, hslot, hpruned]
  cases hc : inSlot b.statements name with
  | none => exact .pure rfl
  | some c =>
    have hchild := mem_children_of_inSlot_statements hc
    have hkind := h.isPlaced.statements c (List.mem_filterMap.mpr ⟨_, mem_of_inSlot hc, rfl⟩)
    have hcode := (hb c hchild true true fun _ => rfl).allows (I := fun _ => True)
      (code_allows_statement (h.child hchild) hkind true false) fun _ _ _ => trivial
    have hlines : ∀ kind, Lockstep Pass.Mirrors o (c.code true false >>= Site.chainLines c.kind)
        (linkCode true c.remaining >>= Site.chainLines kind) Eq := by
      intro kind
      apply hcode.bind
      rintro _ _ ⟨rfl, text, rfl⟩
      exact Site.chainLines_related (Gen.mirrors_congruence o) (fun _ _ ho => ho.1.trans ho.2.symm)
        kind (.statement text)
    rw [prunedLink]
    cases hleft : c.remaining with
    | none =>
      have hnone := hlines c.kind
      rw [hleft] at hnone
      exact hnone
    | some d =>
      have hsome := hlines d.kind
      rw [hleft] at hsome
      exact hsome

/-- What follows a block gives the same. -/
theorem nextCode_mirrors (hb : ∀ c ∈ b.children, c.Mirrored o) :
    Lockstep Pass.Mirrors o (b.site attached).nextCode (b.pruned.site attached').nextCode Eq := by
  rw [nextCode_site, nextCode_site, next_pruned]
  cases hc : b.next with
  | none => exact .pure rfl
  | some c => exact hb c (mem_children_of_next hc) true true fun _ => rfl

/-- An enabled block and the same one without disabled blocks have related inputs. -/
theorem matched_pruned (h : b.IsPlacedTree) (hb : ∀ c ∈ b.children, c.Mirrored o) :
    Site.Matched (fun a b => a = o ∧ b = o) (fun m m' => Lockstep Pass.Mirrors o m m' Eq)
      (b.site attached) (b.pruned.site attached') := by
  have hhead : (b.pruned.site attached').head = b.head := b.head_pruned
  have hvalues := map_fst_inputs_prunedSlots b.values
  have hstatements := map_fst_inputs_prunedSlots b.statements
  rw [← values_pruned] at hvalues
  rw [← statements_pruned] at hstatements
  constructor
  · constructor
    case kind => exact congrArg Head.kind hhead.symm
    case record =>
      exact Site.record_of_id (Gen.mirrors_congruence o) (congrArg Head.id hhead.symm)
    case fields => exact fun name _ => congrArg (·.fields.get? name) hhead.symm
    case mutation => exact congrArg Head.mutation hhead.symm
    case value => exact fun name outer => value_mirrors h.isPlaced hb name outer
  · exact .of_id (congrArg Head.id hhead.symm)
  · exact fun name => chain_mirrors h hb name
  · exact Site.hasSlot_congr hvalues.symm hstatements.symm
  · exact Site.slotCount_congr hvalues.symm hstatements.symm

/-- The comments ahead of the code are the same. -/
theorem comments_mirrors (h : b.IsPlaced) (hquiet : b.IsQuietTree)
    (hattached : b.kind.isValue = true → attached = attached') :
    Lockstep Pass.Mirrors o (b.site attached).comments (b.pruned.site attached').comments Eq := by
  have hhead : (b.pruned.site attached').head = b.head := b.head_pruned
  apply Site.comments_related (Gen.mirrors_congruence o)
    fun _ _ ho => congrArg Options.commentWrap (ho.1.trans ho.2.symm)
  case hinline =>
    rw [Site.isInline, Site.isInline, hhead]
    change (b.head.hasOutput && attached) = (b.head.hasOutput && attached')
    rw [h.hasOutput]
    cases hvalue : b.kind.isValue with
    | false => rfl
    | true => rw [hattached hvalue]
  case hcomment => rw [hhead]; rfl
  case hinputs =>
    change Site.inputComments (inputs b.values) = Site.inputComments (inputs b.pruned.values)
    rw [values_pruned]
    exact (Site.inputComments_prunedSlots fun c hc =>
      ⟨hquiet b .self c hc, (h.values c hc).2⟩).symm

end

/-- The chain that a block begins gives the same without disabled blocks. -/
theorem mirrored {b : Block} (h : b.IsPlacedTree) (hquiet : b.IsQuietTree) : b.Mirrored o := by
  induction b using forall_of_children with
  | h b ih =>
    intro attached attached' hattached
    have hb : ∀ c ∈ b.children, c.Mirrored o := fun c hc => ih c hc (h.child hc) (hquiet.child hc)
    rw [code_eq_site_code]
    cases henabled : b.head.enabled with
    | false =>
      -- The block is passed over: what it gives is the code behind it, which is a statement.
      have hskip : (b.site attached).head.enabled = false := henabled
      rw [remaining_of_disabled henabled, Site.code_eq, hskip, Site.passedOver]
      apply Lockstep.requirePass_left
      apply Lockstep.record_left
      rw [if_neg Bool.false_ne_true, nextCode_site]
      cases hc : b.next with
      | none => exact .pure rfl
      | some c =>
        apply hb c (mem_children_of_next hc) true attached'
        intro hvalue
        rw [h.isPlaced.next c hc] at hvalue
        cases hvalue
    | true =>
      have hmatched : Site.Matched (fun a b => a = o ∧ b = o)
          (fun m m' => Lockstep Pass.Mirrors o m m' Eq) (b.site attached)
          (b.pruned.site attached') := matched_pruned h hb
      have hE : ∀ a c : Options, a = o ∧ c = o → a = c := fun _ _ ho => ho.1.trans ho.2.symm
      have hcomments := comments_mirrors (o := o) h.isPlaced hquiet hattached
      have hnext : Lockstep Pass.Mirrors o (b.site attached).nextCode
          (b.pruned.site attached').nextCode Eq := nextCode_mirrors hb
      have hparameter (parameter : Json) := Site.parameterName_related (Gen.mirrors_congruence o)
        (Gen.mirrors_name o · _) parameter
      have hprocedure := hmatched.defineProcedure (Gen.mirrors_congruence o) hE
        (fun _ _ parameter _ => hparameter parameter) (fun code => Site.complete_related (Gen.mirrors_congruence o) hcomments hnext code false)
        (Gen.mirrors_name o · _) (Gen.mirrors_define o)
      have hhead : (b.pruned.site attached').head = b.head := b.head_pruned
      rw [remaining_of_enabled henabled, linkCode, code_eq_site_code]
      have hvariable : Lockstep Pass.Mirrors o (b.site attached).variableName
          (b.pruned.site attached').variableName Eq := by
        rw [Site.variableName, Site.variableName, hhead]
        exact Gen.mirrors_name o _ _
      apply hmatched.code (Gen.mirrors_congruence o) hE _ _ hcomments hnext (fun _ => hvariable)
        fun _ => hprocedure
      · rw [hhead]
        rfl
      · rw [hhead]
        rfl

/-! ## Lines of the main text -/

/-- What is left of a block that nothing holds. A disabled value is dropped if no enabled block
    follows it; otherwise it stays, to be passed over. -/
def remainingTop (b : Block) : Option Block :=
  if b.kind.isValue && !b.head.enabled then (prunedLink b.next).map fun _ => b.pruned
  else b.remaining

/-- The line of what is left of a block that nothing holds. -/
def topLineCode : Option Block → Gen (Option String)
  | none => pure none
  | some b => b.topLevelLine

/-- What is left of a chain of statements begins with a statement. -/
theorem hasOutput_of_remaining {b c : Block} (h : b.IsPlacedTree) (hkind : b.kind.isValue = false)
    (hleft : b.remaining = some c) : c.head.hasOutput = false := by
  induction b using forall_of_children with
  | h b ih =>
    cases henabled : b.head.enabled with
    | true =>
      rw [remaining_of_enabled henabled] at hleft
      obtain rfl := Option.some.inj hleft
      rw [head_pruned, h.isPlaced.hasOutput, hkind]
    | false =>
      rw [remaining_of_disabled henabled] at hleft
      cases hnext : b.next with
      | none =>
        rw [hnext] at hleft
        cases hleft
      | some d =>
        rw [hnext] at hleft
        have hchild := mem_children_of_next hnext
        exact ih d hchild (h.child hchild) (h.isPlaced.next d hnext) hleft

/-- What is left of a chain is written in a line as the block that begins the chain is. -/
theorem lineOf_remaining {b c : Block} (h : b.IsPlacedTree)
    (henabled : b.head.enabled = true ∨ b.kind.isValue = false) (hleft : b.remaining = some c)
    (text : String) : b.lineOf text = c.lineOf text := by
  rcases henabled with henabled | hkind
  · rw [remaining_of_enabled henabled] at hleft
    obtain rfl := Option.some.inj hleft
    have hhead : b.head = b.pruned.head := b.head_pruned.symm
    exact lineOf_related .eq (fun _ _ ho => ho) (congrArg Head.kind hhead)
      (.of_id (congrArg Head.id hhead)) (congrArg Head.hasOutput hhead) text
  · have houtput : b.head.hasOutput = false := by rw [h.isPlaced.hasOutput, hkind]
    rw [lineOf, lineOf, houtput, hasOutput_of_remaining h hkind hleft, if_neg Bool.false_ne_true,
      if_neg Bool.false_ne_true]

/-- A block that nothing holds has the line of what is left of it. -/
theorem topLevelLine_mirrors {b : Block} (h : b.IsPlacedTree) (hquiet : b.IsQuietTree) :
    Lockstep Pass.Mirrors o b.topLevelLine (topLineCode b.remainingTop) Eq := by
  have hE : ∀ a c : Options, a = o ∧ c = o → a = c := fun _ _ ho => ho.1.trans ho.2.symm
  have hline : Lockstep Pass.Mirrors o b.topLevelLine
      (linkCode false b.remaining >>= fun code => b.lineOf code.text) Eq := by
    rw [topLevelLine_eq]
    apply (mirrored h hquiet false false fun _ => rfl).bind
    rintro code _ rfl
    exact lineOf_related (Gen.mirrors_congruence o) hE rfl (.of_id rfl) rfl code.text
  rw [remainingTop]
  split
  · -- A disabled value: what is left is nothing, or the value with what is left behind it.
    rename_i htop
    obtain ⟨hvalue, hdisabled⟩ := Bool.and_eq_true_iff.mp htop
    rw [Bool.not_eq_true'] at hdisabled
    cases hleft : prunedLink b.next with
    | none =>
      rw [remaining_of_disabled hdisabled, hleft, linkCode, pure_bind, Code.text, lineOf_empty]
        at hline
      exact hline
    | some c =>
      have hb : ∀ c ∈ b.children, c.Mirrored o :=
        fun c hc => mirrored (h.child hc) (hquiet.child hc)
      have hhead := b.head_pruned.symm
      have hid : (b.site false).id = (b.pruned.site false).id := congrArg Head.id hhead
      have hkind : (b.site false).kind = (b.pruned.site false).kind := congrArg Head.kind hhead
      have hskip : (b.site false).head.enabled = false := hdisabled
      have hskip' : (b.pruned.site false).head.enabled = false := by
        change b.pruned.head.enabled = false
        rw [head_pruned, hdisabled]
      change Lockstep _ _ b.topLevelLine b.pruned.topLevelLine _
      rw [topLevelLine_eq, topLevelLine_eq, code_eq_site_code, code_eq_site_code, Site.code_eq,
        Site.code_eq, hskip, hskip', Site.passedOver, Site.passedOver, hid, hkind]
      have hnext : Lockstep Pass.Mirrors o (b.site false).nextCode (b.pruned.site false).nextCode Eq :=
        nextCode_mirrors hb
      have hcode := (Gen.mirrors_congruence o).bind (Gen.mirrors_congruence o).requirePass fun _ =>
        (Gen.mirrors_congruence o).bind ((Gen.mirrors_congruence o).record
          ⟨.skippedBlock, some (b.pruned.site false).id, (b.pruned.site false).kind.name, "disabled"⟩)
          fun _ => hnext
      apply hcode.bind
      rintro code _ rfl
      exact lineOf_related (Gen.mirrors_congruence o) hE hkind (.of_id hid)
        (congrArg Head.hasOutput hhead) code.text
  · rename_i htop
    have henabled : b.head.enabled = true ∨ b.kind.isValue = false := by
      cases hvalue : b.kind.isValue with
      | false => exact Or.inr rfl
      | true =>
        rw [hvalue] at htop
        simpa using htop
    cases hleft : b.remaining with
    | none =>
      rw [hleft, linkCode, pure_bind, Code.text, lineOf_empty] at hline
      exact hline
    | some c =>
      rw [hleft] at hline
      simp only [lineOf_remaining h henabled hleft] at hline
      rw [topLineCode, topLevelLine_eq c]
      exact hline

/-- The lines are those of what is left, but for blocks without a line. -/
theorem mapM_topLevelLine_mirrors {blocks : List Block}
    (h : ∀ b ∈ blocks, b.IsPlacedTree ∧ b.IsQuietTree) :
    Lockstep Pass.Mirrors o (blocks.mapM topLevelLine)
      ((blocks.filterMap remainingTop).mapM topLevelLine) fun lines lines' =>
        lines.filterMap (fun line => line) = lines'.filterMap fun line => line := by
  induction blocks with
  | nil =>
    rw [List.filterMap_nil, List.mapM_nil]
    exact .pure rfl
  | cons b rest ih =>
    obtain ⟨hplaced, hquiet⟩ := h b List.mem_cons_self
    have hline := topLevelLine_mirrors (o := o) hplaced hquiet
    have hrest := ih fun c hc => h c (List.mem_cons_of_mem b hc)
    rw [List.mapM_cons, List.filterMap_cons]
    cases hleft : b.remainingTop with
    | none =>
      rw [hleft] at hline
      -- No block is left, so nothing goes ahead of the other lines.
      have hskip : Lockstep Pass.Mirrors o
          (b.topLevelLine >>= fun line => rest.mapM topLevelLine >>= fun lines =>
            pure (line :: lines))
          (topLineCode none >>= fun _ => (rest.filterMap remainingTop).mapM topLevelLine)
          fun lines lines' =>
            lines.filterMap (fun line => line) = lines'.filterMap fun line => line := by
        apply hline.pure_right.bind
        rintro _ _ ⟨rfl, rfl⟩
        rw [← bind_pure ((rest.filterMap remainingTop).mapM topLevelLine)]
        apply hrest.bind
        intro lines lines' hlines
        apply Lockstep.pure
        rw [List.filterMap_cons, hlines]
      exact hskip
    | some c =>
      rw [hleft] at hline
      rw [List.mapM_cons]
      apply hline.bind
      rintro line _ rfl
      apply hrest.bind
      intro lines lines' hlines
      apply Lockstep.pure
      rw [List.filterMap_cons, List.filterMap_cons, hlines]

end Block

/-! ## Programs -/

namespace Workspace

/-- The workspace without its disabled blocks: each statement is cut out of its chain, each value slot
    that holds one is empty, and each value that nothing holds is dropped if no enabled block follows
    it. -/
def pruned (w : Workspace) : Workspace :=
  { w with blocks := w.blocks.filterMap Block.remainingTop }

/-- Under all settings a workspace comes to the same program, or to the same fault, without its
    disabled blocks, if none of those in value slots has comments on it or in it. -/
theorem programText_pruned {w : Workspace}
    (h : ∀ b ∈ w.blocks, b.IsPlacedTree ∧ b.IsQuietTree) (o : Options) :
    w.pruned.programText o = w.programText o := by
  have hvariables : w.variableNames = w.pruned.variableNames := rfl
  apply Eq.symm
  apply programText_of_mirrors hvariables
  rw [Session.mainText, Session.mainText]
  apply (Block.mapM_topLevelLine_mirrors h).bind
  intro lines lines' hlines
  rw [hlines]
  exact .pure rfl

end Workspace

/-! ### Disabled blocks in every place -/

/-- A statement that assigns zero to a variable, enabled or not, and what follows it. -/
def switchedAssignment (name : String) (enabled : Bool) (next : Option Block) : Block :=
  .mk ⟨.statement .assign, "set", [(.str "VAR", .str name)], .null, .bool false, enabled, []⟩ [] []
    next

/-- A variable that is disabled, and what follows it. -/
def silencedVariable (next : Option Block) : Block :=
  .mk ⟨.value .getVariable, "get", [(.str "VAR", .str "x")], .null, .bool true, false, []⟩ [] [] next

/-- A conditional with a disabled condition and a disabled statement at the head of its branch. -/
def silencedConditional : Block :=
  .mk ⟨.statement .conditional, "if", [], .null, .bool false, true, []⟩
    [("IF0", some (silencedVariable none))]
    [("DO0", some (switchedAssignment "y" false (some (switchedAssignment "z" true none))))] none

/-- Disabled blocks in a slot, at the heads of chains and on their own. -/
def silenced : Workspace :=
  ⟨[], [silencedConditional, switchedAssignment "u" false (some (switchedAssignment "v" true none)),
    silencedVariable none], .default⟩

theorem programText_silenced :
    silenced.programText .default = .ok "if (false) \x7b\n  z = 0;\n\x7d\n\nv = 0;\n" := by
  with_unfolding_all rfl

theorem isPlacedTree_switchedAssignment (name : String) (enabled : Bool) {next : Option Block}
    (hnext : ∀ c ∈ next, c.kind.isValue = false ∧ c.IsPlacedTree) :
    (switchedAssignment name enabled next).IsPlacedTree :=
  Block.isPlacedTree_mk rfl (fun _ hc => absurd hc List.not_mem_nil)
    (fun _ hc => absurd hc List.not_mem_nil) hnext

theorem isPlacedTree_silencedVariable {next : Option Block}
    (hnext : ∀ c ∈ next, c.kind.isValue = false ∧ c.IsPlacedTree) :
    (silencedVariable next).IsPlacedTree :=
  Block.isPlacedTree_mk rfl (fun _ hc => absurd hc List.not_mem_nil)
    (fun _ hc => absurd hc List.not_mem_nil) hnext

theorem isQuiet_silencedVariable (next : Option Block) : (silencedVariable next).IsQuiet := by
  have hnested : (silencedVariable next).nested = [silencedVariable next] := by
    rw [Block.nested_eq]
    change _ :: (Block.nestedInSlots [] ++ Block.nestedInSlots []) = _
    rw [Block.nestedInSlots]
    rfl
  intro c hc _
  rw [hnested] at hc
  obtain rfl := List.mem_singleton.mp hc
  rw [Block.nestedComments, hnested]
  rfl

/-- A tree without values in slots is quiet. -/
theorem Block.isQuietTree_of_no_values {b : Block} (h : connected b.values = [])
    (hb : ∀ c ∈ b.children, c.IsQuietTree) : b.IsQuietTree := by
  apply forall_within_of_children
  case hself =>
    rw [h]
    exact fun v hv => absurd hv List.not_mem_nil
  case hchildren => exact hb

theorem isQuietTree_switchedAssignment (name : String) (enabled : Bool) {next : Option Block}
    (hnext : ∀ c ∈ next, c.IsQuietTree) : (switchedAssignment name enabled next).IsQuietTree :=
  Block.isQuietTree_of_no_values rfl fun c hc => hnext c (Option.mem_toList.mp hc)

theorem isQuietTree_silencedVariable {next : Option Block} (hnext : ∀ c ∈ next, c.IsQuietTree) :
    (silencedVariable next).IsQuietTree :=
  Block.isQuietTree_of_no_values rfl fun c hc => hnext c (Option.mem_toList.mp hc)

/-- A chain of two assignments. -/
theorem switchedAssignments_trees (name name' : String) (enabled enabled' : Bool) :
    let chain := switchedAssignment name enabled (some (switchedAssignment name' enabled' none))
    chain.IsPlacedTree ∧ chain.IsQuietTree := by
  have hnone : ∀ {P : Block → Prop}, ∀ c ∈ (none : Option Block), P c :=
    fun c hc => absurd hc (Option.not_mem_none c)
  constructor
  · apply isPlacedTree_switchedAssignment
    rintro _ ⟨⟩
    exact ⟨rfl, isPlacedTree_switchedAssignment _ _ hnone⟩
  · apply isQuietTree_switchedAssignment
    rintro _ ⟨⟩
    exact isQuietTree_switchedAssignment _ _ hnone

theorem silencedConditional_trees :
    silencedConditional.IsPlacedTree ∧ silencedConditional.IsQuietTree := by
  have hnone : ∀ {P : Block → Prop}, ∀ c ∈ (none : Option Block), P c :=
    fun c hc => absurd hc (Option.not_mem_none c)
  obtain ⟨hplaced, hquiet⟩ := switchedAssignments_trees "y" "z" false true
  constructor
  · apply Block.isPlacedTree_mk rfl
    case hvalues =>
      intro c hc
      obtain rfl := List.mem_singleton.mp hc
      exact ⟨rfl, rfl, isPlacedTree_silencedVariable hnone⟩
    case hstatements =>
      intro c hc
      obtain rfl := List.mem_singleton.mp hc
      exact ⟨rfl, hplaced⟩
    case hnext => exact hnone
  · intro c hc
    cases hc with
    | self =>
      intro v hv
      obtain rfl := List.mem_singleton.mp hv
      exact isQuiet_silencedVariable none
    | child hchild hc =>
      rcases List.mem_cons.mp hchild with rfl | hchild
      · exact isQuietTree_silencedVariable hnone c hc
      · obtain rfl := List.mem_singleton.mp hchild
        exact hquiet c hc

theorem silenced_trees : ∀ b ∈ silenced.blocks, b.IsPlacedTree ∧ b.IsQuietTree := by
  have hnone : ∀ {P : Block → Prop}, ∀ c ∈ (none : Option Block), P c :=
    fun c hc => absurd hc (Option.not_mem_none c)
  intro b hb
  rcases List.mem_cons.mp hb with rfl | hb
  · exact silencedConditional_trees
  rcases List.mem_cons.mp hb with rfl | hb
  · exact switchedAssignments_trees "u" "v" false true
  · obtain rfl := List.mem_singleton.mp hb
    exact ⟨isPlacedTree_silencedVariable hnone, isQuietTree_silencedVariable hnone⟩

/-- Without its disabled blocks the workspace has the conditional with an empty slot, and the statement
    behind the disabled one. -/
theorem programText_pruned_silenced :
    (∀ b ∈ silenced.blocks, b.IsPlacedTree ∧ b.IsQuietTree) ∧
    silenced.pruned.programText .default =
      .ok "if (false) \x7b\n  z = 0;\n\x7d\n\nv = 0;\n" :=
  ⟨silenced_trees, (Workspace.programText_pruned silenced_trees .default).trans programText_silenced⟩

/-! ### Where a disabled block is no different from none -/

/-- A disabled value that nothing holds, and an enabled statement behind it. -/
def silencedAhead : Workspace :=
  ⟨[], [silencedVariable (some (switchedAssignment "y" true none))], .default⟩

/-- A text that holds a disabled statement with a comment, in the slot of a statement. -/
def silencedInside : Workspace :=
  ⟨[], [.mk ⟨.statement .print, "print", [], .null, .bool false, true, []⟩
    [("TEXT", some (.mk ⟨.value .text, "text", [(.str "TEXT", .str "a")], .null, .bool true, true, []⟩
      [] [("DO", some (.mk ⟨.statement .print, "inner", [], .str "c", .bool false, false, []⟩ [] []
        none))] none))] [] none], .default⟩

/-- Without the disabled value there is no line, and with the statement in its place there is a line of
    another text: the code behind a disabled value stands as a value. A comment goes ahead of a
    statement for what is nested in its slots, whether that is disabled or not. -/
theorem programText_not_pruned :
    ((∀ b ∈ silencedAhead.blocks, b.IsPlacedTree ∧ b.IsQuietTree) ∧
      silencedAhead.programText .default = .ok "y = 0;\n;\n" ∧
      (Workspace.mk [] [] .default).programText .default = .ok "" ∧
      (Workspace.mk [] [switchedAssignment "y" true none] .default).programText .default =
        .ok "y = 0;\n") ∧
    (∀ b ∈ silencedInside.blocks, b.IsPlacedTree) ∧
      silencedInside.programText .default = .ok "// c\nwindow.alert('a');\n" ∧
      silencedInside.pruned.programText .default = .ok "window.alert('a');\n" := by
  have hnone : ∀ {P : Block → Prop}, ∀ c ∈ (none : Option Block), P c :=
    fun c hc => absurd hc (Option.not_mem_none c)
  have hnil : ∀ {P : Block → Prop}, ∀ c ∈ Block.connected [], P c :=
    fun c hc => absurd hc List.not_mem_nil
  refine ⟨⟨?_, ?_, ?_, ?_⟩, ?_, ?_, ?_⟩
  · intro b hb
    obtain rfl := List.mem_singleton.mp hb
    constructor
    · apply isPlacedTree_silencedVariable
      rintro _ ⟨⟩
      exact ⟨rfl, isPlacedTree_switchedAssignment _ _ hnone⟩
    · apply isQuietTree_silencedVariable
      rintro _ ⟨⟩
      exact isQuietTree_switchedAssignment _ _ hnone
  · with_unfolding_all rfl
  · with_unfolding_all rfl
  · with_unfolding_all rfl
  · intro b hb
    obtain rfl := List.mem_singleton.mp hb
    apply Block.isPlacedTree_mk rfl _ hnil hnone
    intro c hc
    obtain rfl := List.mem_singleton.mp hc
    refine ⟨rfl, rfl, Block.isPlacedTree_mk rfl hnil ?_ hnone⟩
    intro d hd
    obtain rfl := List.mem_singleton.mp hd
    exact ⟨rfl, Block.isPlacedTree_mk rfl hnil hnil hnone⟩
  · with_unfolding_all rfl
  · with_unfolding_all rfl

end BlockScript
