/-
  BlockScript.Proofs.Comment.Block

  The code of a block with and without comments, side by side. Comment lines go ahead of the code of
  a block that is not plugged into another one, and of the blocks that follow it; every other rule
  hands on what its chains have. A value that nothing holds is the exception: the code that follows it
  goes on in its line, so no comment may be ahead of that.
-/
import BlockScript.Proofs.Comment.Solid
import BlockScript.Proofs.Generate.Matching
import BlockScript.Proofs.Literal.Statement

namespace BlockScript

open Text (Commented Solid WholeLines IsCommentText)
open Gen (Allows Lockstep)

/-! ## Settings -/

/-- Settings that are accepted, without hooks and without a prefix for variables, and with an indent
    of spaces and tabs. -/
structure Options.IsBare (o : Options) (lead : String) : Prop where
  statementPrefix : o.statementPrefix.isTruthy = false
  statementSuffix : o.statementSuffix.isTruthy = false
  loopTrap : o.loopTrap.isTruthy = false
  indent : o.indent = .str lead
  blank : ∀ c ∈ lead.toList, c = ' ' ∨ c = '\t'
  variablePrefix : o.variablePrefix = .str ""
  commentWrap : Options.IsColumn o.commentWrap

theorem Options.IsBare.isPlain {o : Options} {lead : String} (ho : o.IsBare lead) :
    o.IsPlain "" lead where
  statementPrefix := ho.statementPrefix
  statementSuffix := ho.statementSuffix
  loopTrap := ho.loopTrap
  indent := ho.indent
  inert c hc := by
    rcases ho.blank c hc with rfl | rfl <;> decide
  variablePrefix := ho.variablePrefix
  closed := rfl

/-! ## What is related -/

/-- Two passes that differ in the comments of their definitions only. A procedure may be defined with
    comments on one side and without on the other. -/
abbrev Pass.Matches : Pass → Pass → Prop :=
  Pass.Resembles (Text.Commented true)

/-- A composed step comes to the same on passes that match. -/
theorem Gen.Composed.matches {α : Type} {o : Options} {m : Gen α} (h : m.Composed) :
    Lockstep Pass.Matches o m m Eq :=
  h.lockstep (Pass.isMatching_resembles (Commented.refl true))

/-- Code without and with comments. If the flag says so, none of them is ahead of all code. -/
inductive Code.Commented (atStart : Bool) : Code → Code → Prop
  | statement {s t : String} (h : Text.Commented atStart s t)
      (hended : Text.atLineStart true s.toList = true) : Commented atStart (.statement s) (.statement t)
  | expression {s t : String} (order : Order) (h : Text.Commented atStart s t) :
      Commented atStart (.expression s order) (.expression t order)

/-- What the rule for a kind gives without and with comments: whole lines with comments between them,
    the same value if the rule is one for values, or none, as that of a procedure does. -/
inductive Code.RuleCommented (kind : Kind) : Option Code → Option Code → Prop
  | none : RuleCommented kind none none
  | statement {s t : String} (hkind : ¬ kind.IsProcedure) (h : Text.Commented false s t)
      (hlines : WholeLines s) : RuleCommented kind (some (.statement s)) (some (.statement t))
  | expression {s : String} (order : Order) (hvalue : kind.isValue = true) (hsolid : Solid s) :
      RuleCommented kind (some (.expression s order)) (some (.expression s order))

namespace Block

/-- A chain of which the first block that is not passed over has no comment lines ahead of its
    code, or defines a procedure: the comments of that go with the definition. -/
inductive StartsBare : Block → Prop
  | enabled {b : Block} (henabled : b.head.enabled = true)
      (hcomment : b.head.comment.isTruthy = false)
      (hvalues : ∀ name c, (name, some c) ∈ b.values → c.nestedComments = []) : StartsBare b
  | procedure {b : Block} (henabled : b.head.enabled = true) (hkind : b.kind.IsProcedure) :
      StartsBare b
  | last {b : Block} (hdisabled : b.head.enabled = false) (hnext : b.next = none) : StartsBare b
  | passedOver {b c : Block} (hdisabled : b.head.enabled = false) (hnext : b.next = some c)
      (h : StartsBare c) : StartsBare b

/-- What is to be shown of every block: its code is the same with comments, but for comment lines. -/
def Corresponds (o : Options) (b : Block) : Prop :=
  ∀ attached atStart, atStart = true ∨ b.StartsBare →
    Lockstep Pass.Matches o (b.uncommented.code attached false) (b.code attached false)
      (Code.Commented atStart)

/-! ## Inputs -/

section
variable {o : Options} {lead : String} {b : Block} {attached : Bool}

theorem inSlot_statements_uncommented (b : Block) (attached : Bool) (name : String) :
    Site.inSlot (b.uncommented.site attached).statements name =
      (inSlot b.statements name).map fun c => ⟨c.uncommented, c.uncommented.code true false⟩ := by
  rw [← inSlot_inputs_uncommented, ← statements_uncommented]
  rfl

/-- An indent of spaces and tabs goes ahead of every line, also of comment lines. -/
theorem indented_lockstep (ho : o.IsBare lead) {s t : String} (h : Commented true s t) :
    Lockstep Pass.Matches o (Site.indented s) (Site.indented t) (Commented true) := by
  have hindent : o.indentText = .ok lead := by
    rw [Options.indentText, ho.indent]
    rfl
  apply Lockstep.options.bind
  rintro _ _ ⟨rfl, rfl⟩
  rw [hindent, Gen.lift_ok, pure_bind, pure_bind, Script.prefixLines_of_inert ho.isPlain.inert,
    Script.prefixLines_of_inert ho.isPlain.inert]
  apply Lockstep.pure
  have hboth := Text.Annotated.indent ho.blank h
  simpa [Commented] using hboth

/-- The code of the chain in a slot, without and with comments. -/
theorem chain_lockstep (ho : o.IsBare lead) (hb : ∀ c ∈ connected b.statements, c.Corresponds o)
    (name : String) :
    Lockstep Pass.Matches o ((b.uncommented.site attached).chain name)
      ((b.site attached).chain name) (Commented true) := by
  have hslot : Site.inSlot (b.site attached).statements name =
      (inSlot b.statements name).map fun c => ⟨c, c.code true false⟩ :=
    inSlot_inputs b.statements name
  rw [Site.chain, Site.chain, hslot, inSlot_statements_uncommented]
  cases hc : inSlot b.statements name with
  | none => exact .pure (.refl true "")
  | some c =>
    have hmem : c ∈ connected b.statements := List.mem_filterMap.mpr ⟨_, mem_of_inSlot hc, rfl⟩
    apply (hb c hmem true true (Or.inl rfl)).bind
    intro code code' hcode
    cases hcode with
    | expression order h =>
      simp only [kind_uncommented]
      exact .throw _
    | @statement s t h hended =>
      simp only
      -- Only code that is not empty is indented, and comments do not change what is empty.
      by_cases hempty : s = ""
      · rw [if_pos hempty, if_pos (h.eq_empty_iff.mp hempty)]
        exact .pure (.refl true "")
      · rw [if_neg hempty, if_neg fun ht => hempty (h.eq_empty_iff.mpr ht)]
        exact indented_lockstep ho h

/-- The code of the blocks that follow, without and with comments. -/
theorem nextCode_lockstep (hb : ∀ c, b.next = some c → c.Corresponds o) {atStart : Bool}
    (hstart : atStart = true ∨ ∀ c, b.next = some c → c.StartsBare) :
    Lockstep Pass.Matches o (b.uncommented.site attached).nextCode (b.site attached).nextCode
      (Code.Commented atStart) := by
  rw [Site.nextCode, Site.nextCode, site_next_uncommented, site_next]
  cases hc : b.next with
  | none => exact .pure (.statement (.refl atStart "") rfl)
  | some c => exact hb c hc true atStart (hstart.imp_right fun h => h c hc)

/-- A block of which what is in its value slots is regular is alike without comments. -/
theorem IsRegularTree.alike (h : b.IsRegularTree) (attached : Bool) :
    (b.uncommented.site attached).Alike (b.site attached) := by
  apply alike_uncommented
  intro c hc
  obtain ⟨hvalue, hlast⟩ := h.isRegular.values c hc
  exact code_uncommented_of_value (h.child (mem_children_of_values hc)) hvalue hlast false

/-! ## Comments ahead -/

/-- The comments ahead of the code of a regular block are comment lines. -/
theorem comments_meets_of_regular (ho : o.IsBare lead) (h : b.IsRegularTree) (q : Pass) :
    Gen.Meets o (b.site attached).comments q fun text q' => q' = q ∧ IsCommentText text.toList := by
  apply Site.comments_meets ho.commentWrap h.isRegular.comment
  intro input hinput c hc
  obtain ⟨name, hname⟩ := mem_of_mem_inputs hinput
  have hmem : input.block ∈ connected b.values := List.mem_filterMap.mpr ⟨_, hname, rfl⟩
  exact (h.child (mem_children_of_values hmem) c (within_of_mem_nested hc)).comment

/-- Whole code: comments go ahead of it, and the blocks that follow behind it. If these go on in the
    line of the code, no comment may be ahead of them. -/
theorem complete_lockstep (ho : o.IsBare lead) (h : b.IsRegularTree)
    (hb : ∀ c, b.next = some c → c.Corresponds o) {s t : String} {atStart : Bool}
    (htext : Commented false s t) (hsolid : Solid s)
    (hstart : atStart = true ∨ (b.site attached).comments = pure "")
    (hnext : Text.atLineStart true s.toList = true ∨ ∀ c, b.next = some c → c.StartsBare) :
    Lockstep Pass.Matches o ((b.uncommented.site attached).complete s false)
      ((b.site attached).complete t false) fun s' t' => Commented atStart s' t' ∧
        (Text.atLineStart true s.toList = true → Text.atLineStart true s'.toList = true) := by
  have hcomments : Lockstep Pass.Matches o (pure "") (b.site attached).comments fun before after =>
      before = "" ∧ Commented atStart s (after ++ t) := by
    rcases hstart with rfl | hnone
    · apply (Lockstep.of_meets "" fun q => comments_meets_of_regular ho h q).mono
      rintro _ after ⟨rfl, hafter⟩
      exact ⟨rfl, .comments hafter hsolid (htext.weaken true)⟩
    · rw [hnone]
      apply Lockstep.pure
      rw [String.empty_append]
      exact ⟨rfl, htext.weaken atStart⟩
  have hsame : Text.atLineStart atStart s.toList = Text.atLineStart true s.toList :=
    hsolid.atLineStart_eq atStart
  -- First the comments ahead, then what follows: that is begun where the code of the block ends.
  rw [Site.complete, Site.complete, comments_uncommented]
  apply hcomments.bind
  rintro _ after ⟨rfl, hahead⟩
  apply (nextCode_lockstep hb hnext).bind
  intro code code' hcode
  cases hcode with
  | expression order hmore => exact .throw _
  | @statement u v hmore hended =>
    apply Lockstep.pure
    rw [String.empty_append]
    constructor
    · apply hahead.append
      rwa [hsame]
    · intro hline
      rw [String.toList_append, Text.atLineStart_append, hline]
      exact hended

/-! ## Rules -/

/-- The body of a branch. -/
theorem branch_lockstep (ho : o.IsBare lead) (h : b.IsRegularTree)
    (hb : ∀ c ∈ connected b.statements, c.Corresponds o) (slot : String) :
    Lockstep Pass.Matches o ((b.uncommented.site attached).branch slot)
      ((b.site attached).branch slot) (Commented true) := by
  have hhook : Allows o (fun _ => True) (b.site attached).branchHook (· = "") :=
    branchHook_allows ho.isPlain _
  rw [Site.branch, Site.branch, (h.alike attached).branchHook]
  apply ((b.site attached).branchHook_composed.matches.allows hhook fun _ _ _ => trivial).bind
  rintro _ _ ⟨rfl, rfl⟩
  apply (chain_lockstep ho hb slot).bind
  intro body body' hbody
  exact .pure (.behind "" hbody)

/-- A condition with its branch begins with something, and not with a comment. -/
theorem conditionalBranch_lockstep (ho : o.IsBare lead) (h : b.IsRegularTree)
    (hb : ∀ c ∈ connected b.statements, c.Corresponds o) (i : Nat) :
    Lockstep Pass.Matches o ((b.uncommented.site attached).conditionalBranch i)
      ((b.site attached).conditionalBranch i) fun s t => Commented false s t ∧ Solid s := by
  rw [Site.conditionalBranch, Site.conditionalBranch, (h.alike attached).valueOr]
  apply ((b.hasComposedInputs attached).valueOr_composed _ _ _).matches.bind
  rintro condition _ rfl
  apply (branch_lockstep ho h hb _).bind
  intro body body' hbody
  have hif : Solid "if (" := by decide
  have hbrace : ∀ atStart, Text.atLineStart atStart ") \x7b\n".toList = true := by decide
  have hopen := Text.atLineStart_behind ("if (" ++ condition) hbrace false
  apply Lockstep.pure
  constructor
  · apply Commented.ahead
    apply Commented.behind
    rwa [hopen]
  · iterate 4 apply Solid.append
    exact hif

/-- The last branch, if there is one, does not begin with a comment. -/
theorem lastBranch_lockstep (ho : o.IsBare lead) (h : b.IsRegularTree)
    (hb : ∀ c ∈ connected b.statements, c.Corresponds o) :
    Lockstep Pass.Matches o (lastBranch (b.uncommented.site attached) o)
      (lastBranch (b.site attached) o) (Commented false) := by
  rw [lastBranch, lastBranch, (h.alike attached).hasSlot]
  split
  · apply (branch_lockstep ho h hb "ELSE").bind
    intro body body' hbody
    apply Lockstep.pure
    apply Commented.ahead
    exact .behind " else \x7b\n" hbody
  · exact .pure (.refl false "")

theorem conditional_lockstep (ho : o.IsBare lead) (h : b.IsRegularTree)
    (hb : ∀ c ∈ connected b.statements, c.Corresponds o) :
    Lockstep Pass.Matches o (b.uncommented.site attached).conditional (b.site attached).conditional
      fun s t => Commented false s t ∧ WholeLines s := by
  rw [conditional_eq, conditional_eq, (h.alike attached).branchCount]
  apply Lockstep.options.bind
  rintro _ _ ⟨rfl, rfl⟩
  rw [hookText_eq_empty _ ho.statementPrefix, hookText_eq_empty _ ho.statementPrefix, Gen.lift_ok,
    pure_bind, pure_bind]
  apply (Lockstep.mapM fun i _ => conditionalBranch_lockstep ho h hb i).bind
  rintro branches branches' ⟨hlength, hbranches⟩
  apply (lastBranch_lockstep ho h hb).bind
  intro last last' hlast
  have hjoin : Commented false (Text.join " else " branches) (Text.join " else " branches') :=
    .join (fun h => absurd h Bool.false_ne_true) (hbranches.imp fun _ _ h => h.1)
  have hsome : 0 < branches.length := by
    rw [hlength, List.length_range]
    exact Nat.succ_pos _
  have hsolid : Solid (Text.join " else " branches) := .join_of_forall₂ hbranches hsome " else "
  have hend : ∀ atStart, Text.atLineStart atStart "\n".toList = true := by decide
  rw [String.empty_append, String.empty_append]
  apply Lockstep.pure
  constructor
  · apply Commented.ahead
    exact hjoin.append (hlast.weaken _)
  · exact (hsolid.append last).wholeLines hend

/-- The definition of a procedure, with comments and without. -/
theorem defineProcedure_lockstep (ho : o.IsBare lead) (h : b.IsRegularTree)
    (hb : ∀ c ∈ connected b.statements, c.Corresponds o) (hnext : b.next = none) :
    Lockstep Pass.Matches o (b.uncommented.site attached).defineProcedure
      (b.site attached).defineProcedure fun _ _ => True := by
  have halike := h.alike attached
  have hinputs := b.hasComposedInputs attached
  have hnone : Site.indentedHook ("" ++ "") = pure "" := rfl
  have hnone' : Site.indentedHook "" = pure "" := rfl
  simp only [Site.defineProcedure, halike.procedureName, halike.value, halike.parameters]
  apply Lockstep.options.bind
  rintro _ _ ⟨rfl, rfl⟩
  apply (Gen.Composed.name _ .procedure).matches.bind
  rintro name _ rfl
  simp only [hookText_eq_empty _ ho.statementPrefix, hookText_eq_empty _ ho.statementSuffix,
    hookText_eq_empty _ ho.loopTrap, Gen.lift_ok, pure_bind, hnone, hnone']
  apply (chain_lockstep ho hb "STACK").bind
  intro body body' hbody
  apply (hinputs.value_composed "RETURN" .none).matches.bind
  rintro value _ rfl
  apply (Gen.Composed.lift _).matches.bind
  rintro names _ rfl
  apply (Gen.Composed.mapM fun parameter _ => Site.parameterName_composed parameter).matches.bind
  rintro parameters _ rfl
  have hagain : ∀ b : Bool, (if b = true then "" else "") = "" := by
    intro b
    cases b <;> rfl
  have hbrace : ∀ atStart, Text.atLineStart atStart ") \x7b\n".toList = true := by decide
  have hopen := Text.atLineStart_behind
    ("function " ++ name ++ "(" ++ Text.join ", " parameters) hbrace false
  have hfunction : Solid "function " := by decide
  have hlast : ∀ c, b.next ≠ some c := by
    intro c hc
    rw [hnext] at hc
    cases hc
  simp only [hagain, String.append_empty]
  apply Lockstep.bind (complete_lockstep ho h (fun c hc => absurd hc (hlast c)) ?_ ?_
    (Or.inl rfl) (Or.inr fun c hc => absurd hc (hlast c)))
  · intro s t htext
    exact (Gen.define_abreast (Commented.refl true) name htext.1).mono fun _ _ _ => trivial
  · apply Commented.ahead
    apply Commented.ahead
    apply Commented.behind
    rwa [hopen]
  · iterate 7 apply Solid.append
    exact hfunction

/-! ## Blocks -/

/-- The rule for every kind of statement. -/
theorem statement_lockstep (ho : o.IsBare lead) (h : b.IsRegularTree)
    (hb : ∀ c ∈ connected b.statements, c.Corresponds o) {kind : StatementKind}
    (hkind : b.kind = .statement kind) :
    Lockstep Pass.Matches o ((b.uncommented.site attached).statement kind)
      ((b.site attached).statement kind)
      fun r r' => Code.RuleCommented (.statement kind) (r.map .statement) (r'.map .statement) := by
  have hprocedure : b.next = none →
      Lockstep Pass.Matches o
        (do (b.uncommented.site attached).defineProcedure; pure none : Gen (Option String))
        (do (b.site attached).defineProcedure; pure none : Gen (Option String))
        fun r r' => Code.RuleCommented (.statement kind) (r.map .statement) (r'.map .statement) := by
    intro hnext
    apply (defineProcedure_lockstep ho h hb hnext).bind
    exact fun _ _ _ => .pure .none
  -- A procedure leaves nothing where it stands; of the other rules two write chains.
  by_cases hcode : Kind.IsProcedure (.statement kind)
  · have hnext := h.isRegular.procedure (hkind ▸ hcode)
    rcases hcode with ⟨⟨⟩⟩ | ⟨⟨⟩⟩ <;> exact hprocedure hnext
  have hconditional : Lockstep Pass.Matches o (some <$> (b.uncommented.site attached).conditional)
      (some <$> (b.site attached).conditional)
      fun r r' => Code.RuleCommented (.statement kind) (r.map .statement) (r'.map .statement) := by
    rw [map_eq_pure_bind, map_eq_pure_bind]
    apply (conditional_lockstep ho h hb).bind
    exact fun s t htext => .pure (.statement hcode htext.1 htext.2)
  have hplain : kind.writesChains = false →
      Lockstep Pass.Matches o ((b.uncommented.site attached).statement kind)
        ((b.site attached).statement kind)
        fun r r' => Code.RuleCommented (.statement kind) (r.map .statement) (r'.map .statement) := by
    intro hchains
    have hinputs := b.hasComposedInputs attached
    have hlines := (h.isPlacedTree.hasBegunValues (o := o) attached).statement_flushLines hinputs hchains
    rw [(h.alike attached).statement hchains]
    apply ((Site.statement_composed hinputs kind).matches.allows hlines fun _ _ h => h.named).mono
    rintro _ _ ⟨rfl, text, rfl, htext⟩
    exact .statement hcode (.refl false text) htext.wholeLines
  cases kind with
  | conditional | conditionalElse => exact hconditional
  | function => exact absurd (Or.inl rfl) hcode
  | procedure => exact absurd (Or.inr rfl) hcode
  | call | returnIf | append | print | assign | assignDynamic => exact hplain rfl

theorem rule_lockstep (ho : o.IsBare lead) (h : b.IsRegularTree)
    (hb : ∀ c ∈ connected b.statements, c.Corresponds o) :
    Lockstep Pass.Matches o (b.uncommented.site attached).rule (b.site attached).rule
      (Code.RuleCommented b.kind) := by
  have hsite : (b.site attached).kind = b.kind := rfl
  rw [Site.rule, Site.rule, (h.alike attached).kind, hsite]
  cases hkind : b.kind with
  | value kind =>
    have hbegun := (h.isPlacedTree.hasBegunValues (o := o) attached).expression_begun kind
    have hcomposed := Site.expression_composed (b.hasComposedInputs attached) kind
    simp only [(h.alike attached).expression]
    apply (hcomposed.matches.allows hbegun fun _ _ h => h.named).bind
    rintro e _ ⟨rfl, he⟩
    exact .pure (.expression e.2 rfl he.solid)
  | statement kind =>
    apply (statement_lockstep ho h hb hkind).bind
    exact fun r r' hr => .pure hr

/-- Without hooks statement code stays as it is. -/
theorem withHooks_lockstep (ho : o.IsBare lead) (h : b.IsRegularTree) (s t : String) :
    Lockstep Pass.Matches o ((b.uncommented.site attached).withHooks s)
      ((b.site attached).withHooks t) fun s' t' => s' = s ∧ t' = t := by
  have hsame : ∀ text : String, "" ++ text ++ "" = text := by
    intro text
    rw [String.empty_append, String.append_empty]
  rw [Site.withHooks, Site.withHooks, (h.alike attached).kind]
  split
  · exact .pure ⟨rfl, rfl⟩
  · apply Lockstep.options.bind
    rintro _ _ ⟨rfl, rfl⟩
    simp only [hookText_eq_empty _ ho.statementPrefix, hookText_eq_empty _ ho.statementSuffix,
      Gen.lift_ok, pure_bind]
    exact .pure ⟨hsame s, hsame t⟩

/-- Nothing goes ahead of code that begins a chain without comments ahead. -/
theorem StartsBare.comments_eq_pure (h : b.StartsBare) (henabled : b.head.enabled = true)
    (hcode : ¬ b.kind.IsProcedure) : (b.site attached).comments = pure "" := by
  cases h with
  | enabled _ hcomment hvalues => exact Site.comments_eq_pure_of_values hcomment hvalues attached
  | procedure _ hkind => exact absurd hkind hcode
  | last hdisabled | passedOver hdisabled =>
    rw [hdisabled] at henabled
    cases henabled

theorem StartsBare.next (h : b.StartsBare) (hdisabled : b.head.enabled = false) :
    ∀ c, b.next = some c → c.StartsBare := by
  intro c hc
  cases h with
  | enabled henabled | procedure henabled =>
    rw [hdisabled] at henabled
    cases henabled
  | last _ hnext =>
    rw [hnext] at hc
    cases hc
  | passedOver _ hnext h =>
    obtain rfl := Option.some.inj (hnext.symm.trans hc)
    exact h

/-- A block corresponds if the blocks in its chains and those that follow it do. -/
theorem corresponds_of_children (ho : o.IsBare lead) (h : b.IsRegularTree)
    (hb : ∀ c ∈ connected b.statements, c.Corresponds o)
    (hnext : ∀ c, b.next = some c → c.Corresponds o)
    (hjoined : b.kind.isValue = true → b.head.enabled = true →
      ∀ c, b.next = some c → c.StartsBare) : b.Corresponds o := by
  intro attached atStart hstart
  have halike := h.alike attached
  have hhead : (b.site attached).head = b.head := rfl
  rw [code_eq_site_code, code_eq_site_code, Site.code, Site.code, halike.enabled, halike.id,
    halike.kind, halike.hasOutput, hhead]
  apply (Gen.Composed.matches .requirePass).bind
  rintro _ _ -
  cases henabled : b.head.enabled with
  | false =>
    -- The block is passed over, and its comments with it.
    apply (Gen.Composed.matches (.record _)).bind
    rintro _ _ -
    exact nextCode_lockstep hnext (hstart.imp_right fun h => h.next henabled)
  | true =>
    have hahead : ¬ b.kind.IsProcedure → atStart = true ∨ (b.site attached).comments = pure "" :=
      fun hcode => hstart.imp_right fun h => h.comments_eq_pure henabled hcode
    apply (rule_lockstep ho h hb).bind
    intro result result' hresult
    cases hresult with
    | none => exact .pure (.statement (.refl atStart "") rfl)
    | @statement s t hcode htext hlines =>
      apply (withHooks_lockstep ho h s t).bind
      rintro _ _ ⟨rfl, rfl⟩
      apply (complete_lockstep ho h hnext htext hlines.solid (hahead hcode) (Or.inl hlines.ended)).bind
      exact fun s' t' hwhole => .pure (.statement hwhole.1 (hwhole.2 hlines.ended))
    | @expression s order hvalue hsolid =>
      -- No line feed ends the value, so the code behind it has to begin without a comment.
      have hcode := Kind.not_isProcedure_of_isValue hvalue
      have hwhole := complete_lockstep ho h hnext (.refl false s) hsolid (hahead hcode)
        (Or.inr (hjoined hvalue henabled))
      simp only
      split
      · exact .throw _
      · apply hwhole.bind
        exact fun s' t' hst => .pure (.expression order hst.1)

end

/-- Every regular block corresponds, if no comment is ahead of the code that follows a value. -/
theorem corresponds {o : Options} {lead : String} (ho : o.IsBare lead) {b : Block}
    (h : b.IsRegularTree) (hjoined : b.kind.isValue = true → b.head.enabled = true →
      ∀ c, b.next = some c → c.StartsBare) : b.Corresponds o := by
  induction b using forall_of_children with
  | h b ih =>
    have hstatement : ∀ {c}, c.kind.isValue = false → c ∈ b.children → c.Corresponds o := by
      intro c hkind hc
      apply ih c hc (h.child hc)
      rw [hkind]
      exact fun h => absurd h Bool.false_ne_true
    apply corresponds_of_children ho h _ _ hjoined
    · intro c hc
      have hchild := List.mem_append_left b.next.toList (List.mem_append_right (connected b.values) hc)
      exact hstatement (h.isRegular.statements c hc) hchild
    · intro c hc
      exact hstatement (h.isRegular.next c hc) (mem_children_of_next hc)

end Block

end BlockScript
