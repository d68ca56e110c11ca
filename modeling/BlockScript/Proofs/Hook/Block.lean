/-
  BlockScript.Proofs.Hook.Block

  The code of a block without hooks and with them, side by side. Each rule that writes a hook writes
  it in lines of its own: ahead of a statement and behind it, at the top of a branch and of a
  procedure, and ahead of the value that a procedure returns. The lines ahead of a statement need a
  place at the start of a line. The code that follows a value that nothing holds has none, unless
  comments come first.
-/
import BlockScript.Proofs.Generate.Matching
import BlockScript.Proofs.Hook.Setting

namespace BlockScript

open Text (LinePlace Extended IsInsertText EndsFresh Solid WholeLines IsCommentText)
open Gen (Abreast Allows Congruence)

/-! ## What is related -/

/-- Two passes that differ in the hooks in their definitions only. -/
abbrev Pass.Hooked (o : Options) (lead : String) (ids : String → Prop) : Pass → Pass → Prop :=
  Pass.Resembles (o.Hooked lead ids .start)

/-- Code without hooks and with hooks, which is begun at a place. -/
inductive Code.Hooked (o : Options) (lead : String) (ids : String → Prop) (place : LinePlace) :
    Code → Code → Prop
  | statement {s t : String} (h : o.Hooked lead ids place s t) (hlines : s = "" ∨ WholeLines s) :
      Hooked o lead ids place (.statement s) (.statement t)
  | expression {s t : String} (order : Order) (h : o.Hooked lead ids place s t) (hsolid : Solid s) :
      Hooked o lead ids place (.expression s order) (.expression t order)

/-- What the rule for a kind gives without hooks and with hooks: whole lines, the same value if the
    rule is one for values, or none, as that of a procedure does. Only ahead of the code itself a hook
    may need a line of its own. -/
inductive Code.RuleHooked (o : Options) (lead : String) (ids : String → Prop) (kind : Kind) :
    Option Code → Option Code → Prop
  | none : RuleHooked o lead ids kind none none
  | statement {s t : String} (hcode : ¬ kind.IsProcedure)
      (h : ∀ place, o.Admits place → o.Hooked lead ids place s t) (hlines : WholeLines s)
      (hfresh : kind.placesHooks = false → EndsFresh s) :
      RuleHooked o lead ids kind (some (.statement s)) (some (.statement t))
  | expression {s : String} (order : Order) (hvalue : kind.isValue = true) (hsolid : Solid s) :
      RuleHooked o lead ids kind (some (.expression s order)) (some (.expression s order))

namespace Block

/-- A chain of which the first block that is not passed over has comment lines ahead of its code, or
    defines a procedure; or there is no such block. What it writes begins a line of its own. -/
inductive StartsApart : Block → Prop
  | commented {b : Block} (henabled : b.head.enabled = true)
      (hcomment : b.head.comment.isTruthy = true ∨
        ∃ c ∈ connected b.values, c.nestedComments ≠ []) : StartsApart b
  | procedure {b : Block} (henabled : b.head.enabled = true) (hkind : b.kind.IsProcedure) :
      StartsApart b
  | last {b : Block} (hdisabled : b.head.enabled = false) (hnext : b.next = none) : StartsApart b
  | passedOver {b c : Block} (hdisabled : b.head.enabled = false) (hnext : b.next = some c)
      (h : StartsApart c) : StartsApart b

/-- A block whose hooks have lines of their own: nothing follows a procedure, and a conditional has no
    hook behind it. -/
structure IsHookable (o : Options) (b : Block) : Prop where
  procedure : b.kind.IsProcedure → b.next = none
  conditional : o.statementSuffix.isTruthy = true → b.kind.placesHooks = false

/-- A placed tree of such blocks. -/
structure IsHookableTree (o : Options) (b : Block) : Prop where
  placed : b.IsPlacedTree
  hookable : ∀ c, Within c b → c.IsHookable o

/-- What is to be shown of every block: its code is the same with hooks, but for their lines. A chain
    that is begun in the middle of a line has to have no hook ahead of it. -/
def IsInstrumented (o : Options) (lead : String) (ids : String → Prop) (b : Block) : Prop :=
  ∀ attached place, o.Admits place ∨ b.kind.isValue = false ∧ b.StartsApart →
    Abreast (Pass.Hooked o lead ids) o.unhooked o (b.code attached false) (b.code attached false)
      (Code.Hooked o lead ids place)

theorem IsHookableTree.self {o : Options} {b : Block} (h : b.IsHookableTree o) : b.IsHookable o :=
  h.hookable b .self

theorem IsHookableTree.child {o : Options} {b c : Block} (h : b.IsHookableTree o)
    (hc : c ∈ b.children) : c.IsHookableTree o where
  placed := h.placed.child hc
  hookable d hd := h.hookable d (.child hc hd)

/-- A hookable tree is put together from hookable trees. -/
theorem isHookableTree_mk {o : Options} {head : Head} {values statements : Slots}
    {next : Option Block} (hself : (mk head values statements next).IsHookable o)
    (houtput : head.output = .bool head.kind.isValue)
    (hvalues : ∀ c ∈ connected values, c.kind.isValue = true ∧ c.next = none ∧ c.IsHookableTree o)
    (hstatements : ∀ c ∈ connected statements, c.kind.isValue = false ∧ c.IsHookableTree o)
    (hnext : ∀ c ∈ next, c.kind.isValue = false ∧ c.IsHookableTree o) :
    (mk head values statements next).IsHookableTree o where
  placed := isPlacedTree_mk houtput
    (fun c hc => ⟨(hvalues c hc).1, (hvalues c hc).2.1, (hvalues c hc).2.2.placed⟩)
    (fun c hc => ⟨(hstatements c hc).1, (hstatements c hc).2.placed⟩)
    fun c hc => ⟨(hnext c hc).1, (hnext c hc).2.placed⟩
  hookable := forall_within_of_children hself (forall_children_mk
    (fun c hc => (hvalues c hc).2.2.hookable) (fun c hc => (hstatements c hc).2.hookable)
    fun c hc => (hnext c hc).2.hookable)

/-! ## Inputs -/

section
variable {o : Options} {lead : String} {ids : String → Prop} {b : Block} {attached : Bool}

/-- The settings with and without hooks agree in all that other code depends on. -/
theorem hooked_congruence (o : Options) (lead : String) (ids : String → Prop) :
    Congruence (fun a c => a = o.unhooked ∧ c = o)
      fun m m' => Abreast (Pass.Hooked o lead ids) o.unhooked o m m' Eq :=
  Abreast.congruence (Pass.isMatching_resembles (Extended.refl .start)).toIsAligned rfl

theorem hooked_name (o : Options) (lead : String) (ids : String → Prop) (name : String)
    (category : Category) : Abreast (Pass.Hooked o lead ids) o.unhooked o
      (Gen.onPass fun p => p.name name category) (Gen.onPass fun p => p.name name category) Eq :=
  Abreast.name (Pass.isMatching_resembles (Extended.refl .start)) name category

theorem isOneBased_of_unhooked : ∀ a c : Options, a = o.unhooked ∧ c = o →
    a.isOneBased = c.isOneBased := by
  rintro _ _ ⟨rfl, rfl⟩
  rfl

/-- What is in value slots has no hooks. -/
theorem IsPlacedTree.hooked_paired (h : b.IsPlacedTree) (o : Options) (lead : String)
    (ids : String → Prop) (attached : Bool) :
    Site.Paired (fun m m' => Abreast (Pass.Hooked o lead ids) o.unhooked o m m' Eq)
      (b.site attached) (b.site attached) := by
  constructor
  case value =>
    intro name
    apply Site.value_related (hooked_congruence o lead ids)
    apply rel_inSlot
    intro c hc
    have hmem : c ∈ connected b.values := List.mem_filterMap.mpr ⟨_, mem_of_inSlot hc, rfl⟩
    obtain ⟨hvalue, hlast⟩ := h.isPlaced.values c hmem
    have htree := (h.child (mem_children_of_values hmem)).valueTree hvalue hlast
    exact ⟨rfl, htree.code_related (hooked_congruence o lead ids) isOneBased_of_unhooked
      (hooked_name o lead ids · _) false⟩
  case record => exact Site.record_of_id (hooked_congruence o lead ids) rfl
  case fields => exact fun _ _ => rfl
  all_goals rfl

/-- The code of the chain in a slot, without and with hooks. -/
theorem chain_abreast (ho : o.IsHooked lead)
    (hb : ∀ c ∈ connected b.statements, c.IsInstrumented o lead ids) (name : String) :
    Abreast (Pass.Hooked o lead ids) o.unhooked o ((b.site attached).chain name)
      ((b.site attached).chain name) fun s t => o.Hooked lead ids .start s t ∧
        Text.atLineStart true s.toList = true := by
  have hslot : Site.inSlot (b.site attached).statements name =
      (inSlot b.statements name).map fun c => ⟨c, c.code true false⟩ :=
    inSlot_inputs b.statements name
  rw [Site.chain_eq, hslot]
  cases hc : inSlot b.statements name with
  | none => exact .pure ⟨.refl .start "", rfl⟩
  | some c =>
    have hmem : c ∈ connected b.statements := List.mem_filterMap.mpr ⟨_, mem_of_inSlot hc, rfl⟩
    apply (hb c hmem true .start (Or.inl (Or.inl rfl))).bind
    intro code code' hcode
    cases hcode with
    | expression order h => exact .throw _
    | @statement s t h hlines =>
      rw [Site.chainLines, Site.chainLines]
      -- Only code that is not empty is indented, and hooks do not change what is empty.
      by_cases hempty : s = ""
      · rw [if_pos hempty, if_pos (h.eq_empty_iff.mp hempty)]
        exact .pure ⟨.refl .start "", rfl⟩
      · rw [if_neg hempty, if_neg fun ht => hempty (h.eq_empty_iff.mpr ht)]
        apply (Site.indented_abreast ho h hempty).mono
        exact fun s' t' hst => ⟨hst.1, hst.2.trans (hlines.resolve_left hempty).ended⟩

/-- The code of the blocks that follow, without and with hooks. -/
theorem nextCode_abreast (h : b.IsPlaced)
    (hb : ∀ c, b.next = some c → c.IsInstrumented o lead ids) {place : LinePlace}
    (hplace : o.Admits place ∨ ∀ c, b.next = some c → c.StartsApart) :
    Abreast (Pass.Hooked o lead ids) o.unhooked o (b.site attached).nextCode
      (b.site attached).nextCode (Code.Hooked o lead ids place) := by
  rw [nextCode_site]
  cases hc : b.next with
  | none => exact .pure (.statement (.refl place "") (Or.inl rfl))
  | some c => exact hb c hc true place (hplace.imp_right fun hapart => ⟨h.next c hc, hapart c hc⟩)

/-! ## Comments ahead -/

/-- What begins a line of its own and is no procedure has comments ahead. -/
theorem StartsApart.comment (h : b.StartsApart) (henabled : b.head.enabled = true)
    (hcode : ¬ b.kind.IsProcedure) : b.head.comment.isTruthy = true ∨
      ∃ c ∈ connected b.values, c.nestedComments ≠ [] := by
  cases h with
  | commented _ hcomment => exact hcomment
  | procedure _ hkind => exact absurd hkind hcode
  | last hdisabled | passedOver hdisabled =>
    rw [hdisabled] at henabled
    cases henabled

theorem StartsApart.next (h : b.StartsApart) (hdisabled : b.head.enabled = false) :
    ∀ c, b.next = some c → c.StartsApart := by
  intro c hc
  cases h with
  | commented henabled | procedure henabled =>
    rw [hdisabled] at henabled
    cases henabled
  | last _ hnext =>
    rw [hnext] at hc
    cases hc
  | passedOver _ hnext h =>
    obtain rfl := Option.some.inj (hnext.symm.trans hc)
    exact h

/-- The comments ahead of the code of a block are the same with hooks and without; there are some if
    the code has to begin a line of its own. -/
theorem comments_abreast {place : LinePlace} (h : b.IsPlaced)
    (hplace : o.Admits place ∨ b.kind.isValue = false ∧ (b.head.comment.isTruthy = true ∨
      ∃ c ∈ connected b.values, c.nestedComments ≠ [])) :
    Abreast (Pass.Hooked o lead ids) o.unhooked o (b.site attached).comments
      (b.site attached).comments fun a c =>
        a = c ∧ (a = "" ∨ WholeLines a) ∧ (a = "" → o.Admits place) := by
  have hsame : Abreast (Pass.Hooked o lead ids) o.unhooked o (b.site attached).comments
      (b.site attached).comments Eq := by
    apply Site.comments_related (hooked_congruence o lead ids) _ rfl rfl rfl
    rintro _ _ ⟨rfl, rfl⟩
    rfl
  have htext : Allows o.unhooked (fun _ => True) (b.site attached).comments
      fun text => IsCommentText text.toList :=
    Site.commentLaw.comments_allows (fun _ _ _ => trivial) fun _ _ _ _ _ _ => trivial
  have hsome : Allows o.unhooked (fun _ => True) (b.site attached).comments
      fun text => text = "" → o.Admits place := by
    rcases hplace with hplace | ⟨hkind, hcomment⟩
    · exact (Allows.unknown _).mono fun _ _ _ => hplace
    · have hinline : (b.site attached).isInline = false := by
        change (b.head.hasOutput && attached) = false
        rw [h.hasOutput, hkind, Bool.false_and]
      have hne := Site.comments_ne_empty (o := o.unhooked) (I := fun _ => True) hinline
        (hcomment.imp_right fun ⟨c, hc, hnested⟩ => ⟨⟨c, c.code true false⟩, by
          change _ ∈ (inputs b.values).filterMap (·.2)
          rw [filterMap_inputs]
          exact List.mem_map_of_mem hc, hnested⟩)
      exact hne.mono fun text htext hempty => absurd hempty htext
  apply ((hsame.allows htext fun _ _ _ => trivial).allows hsome fun _ _ _ => trivial).mono
  exact fun a c hac => ⟨hac.1.1, hac.1.2.wholeLines, hac.2⟩

/-- Whole code: comments go ahead of it, and the blocks that follow behind it. These begin a line of
    their own, or have no hook ahead of them. -/
theorem complete_abreast {place : LinePlace} {s t : String} (h : b.IsPlaced)
    (hb : ∀ c, b.next = some c → c.IsInstrumented o lead ids)
    (hcomments : Abreast (Pass.Hooked o lead ids) o.unhooked o (b.site attached).comments
      (b.site attached).comments fun a c =>
        a = c ∧ (a = "" ∨ WholeLines a) ∧ (a = "" → o.Admits place))
    (htext : ∀ place, o.Admits place → o.Hooked lead ids place s t) (hsolid : Solid s)
    (hnext : Text.atLineStart true s.toList = true ∨ o.statementPrefix.isTruthy = false ∨
      ∀ c, b.next = some c → c.StartsApart) :
    Abreast (Pass.Hooked o lead ids) o.unhooked o ((b.site attached).complete s false)
      ((b.site attached).complete t false) fun s' t' => o.Hooked lead ids place s' t' ∧ Solid s' ∧
        (Text.atLineStart true s.toList = true → Text.atLineStart true s'.toList = true) := by
  rw [Site.complete, Site.complete]
  apply hcomments.bind
  rintro a _ ⟨rfl, hlines, hadmits⟩
  have hahead : o.Hooked lead ids place (a ++ s) (a ++ t) ∧ Solid (a ++ s) := by
    rcases hlines with rfl | hlines
    · rw [String.empty_append, String.empty_append]
      exact ⟨htext place (hadmits rfl), hsolid⟩
    · -- Behind comments a line begins.
      have hstart : (place.after a.toList).isLineStart = true := by
        rw [place.isLineStart_after, hlines.solid.atLineStart_eq, hlines.ended]
      have hbehind := (htext .start (Or.inl rfl)).weaken (LinePlace.below_of_isLineStart hstart)
      exact ⟨.behind a hbehind, hlines.solid.append s⟩
  have hended : Text.atLineStart true s.toList = true →
      ∀ atStart, Text.atLineStart atStart (a ++ s).toList = true := by
    intro hs atStart
    rw [String.toList_append, Text.atLineStart_append, hsolid.atLineStart_eq, hs]
  obtain ⟨place', hbelow, hplace'⟩ : ∃ place' : LinePlace,
      place'.Below (place.after (a ++ s).toList) ∧
        (o.Admits place' ∨ ∀ c, b.next = some c → c.StartsApart) := by
    rcases hnext with hs | hfalse | hapart
    · have hstart : (place.after (a ++ s).toList).isLineStart = true := by
        rw [place.isLineStart_after]
        exact hended hs _
      exact ⟨.start, LinePlace.below_of_isLineStart hstart, Or.inl (Or.inl rfl)⟩
    · exact ⟨.blank, .blank _, Or.inl (Or.inr hfalse)⟩
    · exact ⟨.blank, .blank _, Or.inr hapart⟩
  apply (nextCode_abreast h hb hplace').bind
  intro code code' hcode
  cases hcode with
  | expression order hmore => exact .throw _
  | @statement u v hmore hmoreLines =>
    apply Abreast.pure
    refine ⟨hahead.1.append (hmore.weaken hbelow), hahead.2.append u, fun hs => ?_⟩
    rcases hmoreLines with rfl | hmoreLines
    · rw [String.append_empty]
      exact hended hs true
    · rw [String.toList_append, Text.atLineStart_append, hmoreLines.solid.atLineStart_eq,
        hmoreLines.ended]

/-! ## Rules -/

theorem endsFresh_brace : EndsFresh ") \x7b\n" := by
  intro place
  cases place <;> rfl

theorem endsFresh_semicolon : EndsFresh ";\n" := by
  intro place
  cases place <;> rfl

/-- The body of a branch; where there is a conditional, no hook is behind statements. -/
theorem branch_abreast (ho : o.IsHooked lead) (hid : ids b.head.id)
    (hb : ∀ c ∈ connected b.statements, c.IsInstrumented o lead ids)
    (hsuffix : o.statementSuffix.isTruthy = false) (slot : String) :
    Abreast (Pass.Hooked o lead ids) o.unhooked o ((b.site attached).branch slot)
      ((b.site attached).branch slot) (o.Hooked lead ids .start) := by
  apply (Site.branchHook_abreast ho hid).bind
  rintro _ hook ⟨rfl, -, hnone⟩
  obtain rfl := hnone hsuffix
  apply (chain_abreast ho hb slot).bind
  intro body body' hbody
  exact .pure (.behind "" hbody.1)

/-- A condition with its branch, which begins in its line. -/
theorem conditionalBranch_abreast (ho : o.IsHooked lead) (h : b.IsPlacedTree) (hid : ids b.head.id)
    (hb : ∀ c ∈ connected b.statements, c.IsInstrumented o lead ids)
    (hsuffix : o.statementSuffix.isTruthy = false) (i : Nat) :
    Abreast (Pass.Hooked o lead ids) o.unhooked o ((b.site attached).conditionalBranch i)
      ((b.site attached).conditionalBranch i) fun s t => o.Hooked lead ids .blank s t ∧ Solid s := by
  apply ((h.hooked_paired o lead ids attached).valueOr (hooked_congruence o lead ids) _ _ _).bind
  rintro condition _ rfl
  apply (branch_abreast ho hid hb hsuffix _).bind
  intro body body' hbody
  have hif : Solid "if (" := by decide
  have hopen := endsFresh_brace.behind ("if (" ++ condition) .blank
  apply Abreast.pure
  constructor
  · apply Extended.ahead
    apply Extended.behind
    rw [hopen]
    exact hbody.weaken .start
  · iterate 4 apply Solid.append
    exact hif

/-- The last branch, if there is one, begins in the line of the one before. -/
theorem lastBranch_abreast (ho : o.IsHooked lead) (hid : ids b.head.id)
    (hb : ∀ c ∈ connected b.statements, c.IsInstrumented o lead ids)
    (hsuffix : o.statementSuffix.isTruthy = false) :
    Abreast (Pass.Hooked o lead ids) o.unhooked o (lastBranch (b.site attached) o.unhooked)
      (lastBranch (b.site attached) o) (o.Hooked lead ids .blank) := by
  have hbare : o.unhooked.statementSuffix.isTruthy = false := rfl
  have hopen : LinePlace.blank.after " else \x7b\n".toList = .fresh := by rfl
  rw [lastBranch, lastBranch, hsuffix, hbare]
  split
  · apply (branch_abreast ho hid hb hsuffix "ELSE").bind
    intro body body' hbody
    apply Abreast.pure
    apply Extended.ahead
    apply Extended.behind
    rw [hopen]
    exact hbody.weaken .start
  · exact .pure (.refl .blank "")

theorem conditional_abreast (ho : o.IsHooked lead) (h : b.IsPlacedTree) (hid : ids b.head.id)
    (hb : ∀ c ∈ connected b.statements, c.IsInstrumented o lead ids)
    (hsuffix : o.statementSuffix.isTruthy = false) :
    Abreast (Pass.Hooked o lead ids) o.unhooked o (b.site attached).conditional
      (b.site attached).conditional fun s t =>
        (∀ place, o.Admits place → o.Hooked lead ids place s t) ∧ WholeLines s := by
  have hmem : o.statementPrefix ∈ o.hooks := by simp [Options.hooks]
  obtain ⟨hook, hrun, hinsert, hnone⟩ := (b.site attached).exists_hookText ho hmem hid
  have hbare : (b.site attached).hookText o.unhooked.statementPrefix = .ok "" :=
    hookText_eq_empty _ rfl
  have hwhole : ∀ {s t : String}, o.Hooked lead ids .blank s t → Solid s → ∀ place, o.Admits place →
      o.Hooked lead ids place s (hook ++ t) := by
    intro s t hst hsolid place hplace
    rcases hplace with rfl | hfalse
    · exact (hst.weaken (.blank _)).insert_ahead hinsert rfl hsolid
    · rw [hnone hfalse, String.empty_append]
      exact hst.weaken (.blank _)
  have hend : ∀ atStart, Text.atLineStart atStart "\n".toList = true := by decide
  rw [conditional_eq]
  apply Abreast.options.bind
  rintro _ o ⟨rfl, rfl⟩
  rw [hbare, hrun, Gen.lift_ok, Gen.lift_ok, pure_bind, pure_bind]
  apply (Abreast.mapM fun i _ => conditionalBranch_abreast ho h hid hb hsuffix i).bind
  rintro branches branches' ⟨hlength, hbranches⟩
  apply (lastBranch_abreast ho hid hb hsuffix).bind
  intro last last' hlast
  have hjoin : o.Hooked lead ids .blank (Text.join " else " branches)
      (Text.join " else " branches') := .join (fun _ => .blank _) (hbranches.imp fun _ _ h => h.1)
  have hsome : 0 < branches.length := by
    rw [hlength, List.length_range]
    exact Nat.succ_pos _
  have hsolid : Solid (Text.join " else " branches) := .join_of_forall₂ hbranches hsome " else "
  have htext := (hjoin.append (hlast.weaken (.blank _))).ahead "\n"
  have hlines := (hsolid.append last).wholeLines hend
  have hassoc : hook ++ Text.join " else " branches' ++ last' ++ "\n" =
      hook ++ (Text.join " else " branches' ++ last' ++ "\n") := by
    simp only [String.append_assoc]
  rw [String.empty_append, hassoc]
  exact .pure ⟨hwhole htext hlines.solid, hlines⟩

/-- Behind the indent there is something in the line, if there is something in what is indented. -/
theorem solid_indentShown (ho : o.IsHooked lead) {s : String} (hs : Solid s) :
    Solid (o.indentShown ++ s) := by
  have hshown : o.indentShown = lead := by
    rw [Options.indentShown, ho.indent]
    rfl
  rw [hshown, Solid, String.toList_append]
  exact Text.isSolid_behind hs (Text.not_mem_of_spaces ho.blank)

theorem returnIf_abreast (ho : o.IsHooked lead) (h : b.IsPlacedTree) (hid : ids b.head.id) :
    Abreast (Pass.Hooked o lead ids) o.unhooked o (b.site attached).returnIf
      (b.site attached).returnIf fun s t =>
        (∀ place, o.Hooked lead ids place s t) ∧ Solid s ∧ EndsFresh s := by
  have hif : Solid "if (" := by decide
  have hclose : EndsFresh "\x7d\n" := by
    intro place
    cases place <;> rfl
  have hresult : ∀ condition hook result : String, IsInsertText (o.IsHookLine lead ids) hook →
      (∀ place, o.Hooked lead ids place
        ("if (" ++ condition ++ ") \x7b\n" ++ "" ++ o.indentShown ++ result ++ "\x7d\n")
        ("if (" ++ condition ++ ") \x7b\n" ++ hook ++ o.indentShown ++ result ++ "\x7d\n")) ∧
      Solid ("if (" ++ condition ++ ") \x7b\n" ++ "" ++ o.indentShown ++ result ++ "\x7d\n") ∧
      EndsFresh ("if (" ++ condition ++ ") \x7b\n" ++ "" ++ o.indentShown ++ result ++ "\x7d\n") := by
    intro condition hook result hinsert
    refine ⟨fun place => ?_, ?_, hclose.behind _⟩
    · have hopen := endsFresh_brace.behind ("if (" ++ condition) place
      rw [String.append_empty]
      iterate 3 apply Extended.ahead
      exact (Extended.refl place _).insert_behind hinsert hopen
    · iterate 6 apply Solid.append
      exact hif
  have hpaired := h.hooked_paired o lead ids attached
  rw [Site.returnIf]
  apply (hpaired.valueOr (hooked_congruence o lead ids) "CONDITION" _ _).bind
  rintro condition _ rfl
  apply (Site.branchHook_abreast ho hid).bind
  rintro _ hook ⟨rfl, hinsert, -⟩
  apply Abreast.options.bind
  rintro _ o ⟨rfl, rfl⟩
  dsimp only
  split
  · apply Abreast.bind (hpaired.valueOr (hooked_congruence o lead ids) "VALUE" _ _)
    rintro value _ rfl
    exact .pure (hresult condition hook _ hinsert)
  · exact .pure (hresult condition hook _ hinsert)

/-- The text of a procedure with hooks at its top, and ahead of its return if there is one. -/
theorem extended_procedure {P : List Char → Prop} {head hooks trap body body' again result : String}
    (hhead : EndsFresh head) (hhooks : IsInsertText P hooks) (htrap : IsInsertText P trap)
    (hbody : Extended P .start body body') (hended : Text.atLineStart true body.toList = true)
    (hagain : IsInsertText P again) (hresult : again = "" ∨ Solid result) (place : LinePlace) :
    Extended P place (head ++ body ++ result ++ "\x7d")
      (head ++ hooks ++ trap ++ body' ++ again ++ result ++ "\x7d") := by
  have htop : Extended P place head (head ++ (hooks ++ trap)) :=
    (Extended.refl place head).insert_behind (hhooks.append htrap) (hhead place)
  have hopen : Extended P (place.after head.toList) body body' := by
    rw [hhead place]
    exact hbody.weaken .start
  have hstart : (place.after (head ++ body).toList).isLineStart = true := by
    rw [String.toList_append, LinePlace.after_append, hhead place, LinePlace.isLineStart_after]
    exact hended
  have hreturn : Extended P (place.after (head ++ body).toList) result (again ++ result) := by
    rcases hresult with rfl | hsolid
    · rw [String.empty_append]
      exact .refl _ result
    · exact (Extended.refl _ result).insert_ahead hagain hstart hsolid
  have hwhole := ((htop.append hopen).append hreturn).ahead "\x7d"
  simpa only [String.append_assoc] using hwhole

/-- The text of a procedure, without and with hooks. -/
theorem procedureText_abreast (ho : o.IsHooked lead) (h : b.IsPlacedTree) (hid : ids b.head.id)
    (hb : ∀ c ∈ connected b.statements, c.IsInstrumented o lead ids) (hlast : b.next = none)
    (name : String) :
    Abreast (Pass.Hooked o lead ids) o.unhooked o ((b.site attached).procedureText o.unhooked name)
      ((b.site attached).procedureText o name) (o.Hooked lead ids .start) := by
  have hmem : o.statementPrefix ∈ o.hooks ∧ o.statementSuffix ∈ o.hooks ∧ o.loopTrap ∈ o.hooks := by
    simp [Options.hooks]
  obtain ⟨ahead, hahead, hinsertAhead, -⟩ :=
    (b.site attached).exists_hookText ho hmem.1 hid
  obtain ⟨behind, hbehind, hinsertBehind, -⟩ :=
    (b.site attached).exists_hookText ho hmem.2.1 hid
  obtain ⟨guard, hguard, hinsertGuard, -⟩ :=
    (b.site attached).exists_hookText ho hmem.2.2 hid
  have hbare : (b.site attached).hookText o.unhooked.statementPrefix = .ok "" ∧
      (b.site attached).hookText o.unhooked.statementSuffix = .ok "" ∧
      (b.site attached).hookText o.unhooked.loopTrap = .ok "" :=
    ⟨hookText_eq_empty _ rfl, hookText_eq_empty _ rfl, hookText_eq_empty _ rfl⟩
  have hshown : o.unhooked.indentShown = o.indentShown := rfl
  have hpaired := h.hooked_paired o lead ids attached
  have hcongruence := hooked_congruence o lead ids
  rw [Site.procedureText, Site.procedureText, hbare.1, hbare.2.1, hbare.2.2, hahead, hbehind,
    hguard, hshown]
  simp only [Gen.lift_ok, pure_bind]
  apply (Site.indentedHook_abreast ho (hinsertAhead.append hinsertBehind)).bind
  rintro _ hooks ⟨rfl, hhooks, -⟩
  apply (Site.indentedHook_abreast ho hinsertGuard).bind
  rintro _ trap ⟨rfl, htrap, -⟩
  apply (chain_abreast ho hb "STACK").bind
  rintro body body' ⟨hbody, hended⟩
  apply (hpaired.value "RETURN" .none).bind
  rintro value _ rfl
  apply (Abreast.lift _).bind
  rintro names _ rfl
  apply (hcongruence.mapM fun parameter _ => Site.parameterName_related hcongruence
    (hooked_name o lead ids · _) parameter).bind
  rintro parameters _ rfl
  have hagain : IsInsertText (o.IsHookLine lead ids)
      (if body' ≠ "" && value ≠ "" then hooks else "") := by
    split
    · exact hhooks
    · exact Text.isInsertText_empty
  have hnone : (if body ≠ "" && value ≠ "" then "" else "") = "" := ite_self _
  have hresult : (if body' ≠ "" && value ≠ "" then hooks else "") = "" ∨
      Solid (if value = "" then "" else o.indentShown ++ "return " ++ value ++ ";\n") := by
    by_cases hvalue : value = ""
    · left
      rw [hvalue]
      simp
    · right
      rw [if_neg hvalue]
      have hreturn : Solid "return " := by decide
      exact ((solid_indentShown ho hreturn).append value).append ";\n"
  have hhead : EndsFresh (Site.procedureHead name parameters) := endsFresh_brace.behind _
  have hsolid : Solid (Site.procedureHead name parameters) := by
    have hfunction : Solid "function " := by decide
    iterate 4 apply Solid.append
    exact hfunction
  have hlastCode : ∀ c, b.next ≠ some c := by
    intro c hc
    rw [hlast] at hc
    cases hc
  rw [hnone]
  simp only [String.append_empty]
  apply Abreast.mono
  apply complete_abreast h.isPlaced (fun c hc => absurd hc (hlastCode c))
    (comments_abreast h.isPlaced (Or.inl (Or.inl rfl)))
  · exact fun place _ => extended_procedure hhead hhooks htrap hbody hended hagain hresult place
  · iterate 3 apply Solid.append
    exact hsolid
  · exact Or.inr (Or.inr fun c hc => absurd hc (hlastCode c))
  · exact fun s t hst => hst.1

/-- The definition of a procedure, without hooks and with them. -/
theorem defineProcedure_abreast (ho : o.IsHooked lead) (h : b.IsPlacedTree) (hid : ids b.head.id)
    (hb : ∀ c ∈ connected b.statements, c.IsInstrumented o lead ids) (hlast : b.next = none) :
    Abreast (Pass.Hooked o lead ids) o.unhooked o (b.site attached).defineProcedure
      (b.site attached).defineProcedure fun _ _ => True := by
  rw [Site.defineProcedure_eq]
  apply Abreast.options.bind
  rintro _ o ⟨rfl, rfl⟩
  apply (hooked_name o lead ids _ _).bind
  rintro name _ rfl
  apply (procedureText_abreast ho h hid hb hlast name).bind
  intro text text' htext
  apply (Gen.define_abreast (Extended.refl .start) name htext).mono
  exact fun _ _ _ => trivial

/-! ## Blocks -/

/-- The rule for every kind of statement. -/
theorem statement_abreast (ho : o.IsHooked lead) (h : b.IsPlacedTree) (hself : b.IsHookable o)
    (hid : ids b.head.id) (hb : ∀ c ∈ connected b.statements, c.IsInstrumented o lead ids)
    {kind : StatementKind} (hkind : b.kind = .statement kind) :
    Abreast (Pass.Hooked o lead ids) o.unhooked o ((b.site attached).statement kind)
      ((b.site attached).statement kind) fun r r' =>
        Code.RuleHooked o lead ids (.statement kind) (r.map .statement) (r'.map .statement) := by
  have hprocedure : b.next = none →
      Abreast (Pass.Hooked o lead ids) o.unhooked o
        (do (b.site attached).defineProcedure; pure none : Gen (Option String))
        (do (b.site attached).defineProcedure; pure none : Gen (Option String)) fun r r' =>
          Code.RuleHooked o lead ids (.statement kind) (r.map .statement) (r'.map .statement) := by
    intro hlast
    apply (defineProcedure_abreast ho h hid hb hlast).bind
    exact fun _ _ _ => .pure .none
  -- A procedure leaves nothing where it stands.
  by_cases hcode : Kind.IsProcedure (.statement kind)
  · have hlast := hself.procedure (hkind ▸ hcode)
    rcases hcode with ⟨⟨⟩⟩ | ⟨⟨⟩⟩ <;> exact hprocedure hlast
  have hconditional : Kind.placesHooks (.statement kind) = true →
      Abreast (Pass.Hooked o lead ids) o.unhooked o (some <$> (b.site attached).conditional)
        (some <$> (b.site attached).conditional) fun r r' =>
          Code.RuleHooked o lead ids (.statement kind) (r.map .statement) (r'.map .statement) := by
    intro hplaces
    have hsuffix : o.statementSuffix.isTruthy = false := by
      rw [← Bool.not_eq_true]
      intro htruthy
      have hnot := hself.conditional htruthy
      rw [hkind, hplaces] at hnot
      cases hnot
    rw [map_eq_pure_bind]
    apply (conditional_abreast ho h hid hb hsuffix).bind
    intro s t hst
    have hfresh : Kind.placesHooks (.statement kind) = false → EndsFresh s := by
      intro hnot
      rw [hplaces] at hnot
      cases hnot
    exact .pure (.statement hcode hst.1 hst.2 hfresh)
  have hreturn : Abreast (Pass.Hooked o lead ids) o.unhooked o (some <$> (b.site attached).returnIf)
      (some <$> (b.site attached).returnIf) fun r r' =>
        Code.RuleHooked o lead ids (.statement kind) (r.map .statement) (r'.map .statement) := by
    rw [map_eq_pure_bind]
    apply (returnIf_abreast ho h hid).bind
    intro s t hst
    exact .pure (.statement hcode (fun place _ => hst.1 place) ⟨hst.2.1, hst.2.2.ended⟩
      fun _ => hst.2.2)
  have hplain : kind.isPlain = true →
      Abreast (Pass.Hooked o lead ids) o.unhooked o ((b.site attached).statement kind)
        ((b.site attached).statement kind) fun r r' =>
          Code.RuleHooked o lead ids (.statement kind) (r.map .statement) (r'.map .statement) := by
    intro hplain
    have hpaired := h.hooked_paired o lead ids attached
    have hsame := hpaired.statement (hooked_congruence o lead ids) hplain
      fun _ => hooked_name o lead ids _ _
    have hended := (h.hasBegunValues (o := o.unhooked) attached).plainStatement_ended
      (b.hasComposedInputs attached) hplain
    apply (hsame.allows hended fun _ _ hpass => hpass.named).mono
    rintro _ _ ⟨rfl, front, rfl, hfront⟩
    have hfresh : EndsFresh (front ++ ";\n") := endsFresh_semicolon.behind front
    exact .statement hcode (fun place _ => .refl place _) ⟨hfront.solid.append ";\n", hfresh.ended⟩
      fun _ => hfresh
  cases kind with
  | conditional | conditionalElse => exact hconditional rfl
  | function => exact absurd (Or.inl rfl) hcode
  | procedure => exact absurd (Or.inr rfl) hcode
  | returnIf => exact hreturn
  | call | append | print | assign | assignDynamic => exact hplain rfl

theorem rule_abreast (ho : o.IsHooked lead) (h : b.IsPlacedTree) (hself : b.IsHookable o)
    (hid : ids b.head.id) (hb : ∀ c ∈ connected b.statements, c.IsInstrumented o lead ids) :
    Abreast (Pass.Hooked o lead ids) o.unhooked o (b.site attached).rule (b.site attached).rule
      (Code.RuleHooked o lead ids b.kind) := by
  have hsite : (b.site attached).kind = b.kind := rfl
  rw [Site.rule, hsite]
  cases hkind : b.kind with
  | value kind =>
    have hsame := (h.hooked_paired o lead ids attached).expression (hooked_congruence o lead ids)
      isOneBased_of_unhooked kind fun _ => hooked_name o lead ids _ _
    have hbegun := (h.hasBegunValues (o := o.unhooked) attached).expression_begun kind
    apply (hsame.allows hbegun fun _ _ hpass => hpass.named).bind
    rintro e _ ⟨rfl, he⟩
    exact .pure (.expression e.2 rfl he.solid)
  | statement kind =>
    apply (statement_abreast ho h hself hid hb hkind).bind
    exact fun r r' hr => .pure hr

/-- A block is instrumented if the blocks in its chains and those that follow it are. -/
theorem instrumented_of_children (ho : o.IsHooked lead) (h : b.IsPlacedTree)
    (hself : b.IsHookable o) (hid : ids b.head.id)
    (hb : ∀ c ∈ connected b.statements, c.IsInstrumented o lead ids)
    (hnext : ∀ c, b.next = some c → c.IsInstrumented o lead ids)
    (hjoined : b.kind.isValue = true → b.head.enabled = true →
      o.statementPrefix.isTruthy = false ∨ ∀ c, b.next = some c → c.StartsApart) :
    b.IsInstrumented o lead ids := by
  intro attached place hplace
  have hcongruence := hooked_congruence o lead ids
  have hhead : (b.site attached).head = b.head := rfl
  rw [code_eq_site_code, Site.code_eq, hhead]
  apply hcongruence.requirePass.bind
  rintro _ _ -
  cases henabled : b.head.enabled with
  | false =>
    -- The block is passed over.
    apply (hcongruence.record _).bind
    rintro _ _ -
    exact nextCode_abreast h.isPlaced hnext (hplace.imp_right fun h => h.2.next henabled)
  | true =>
    have hcomments : ¬ b.kind.IsProcedure → Abreast (Pass.Hooked o lead ids) o.unhooked o
        (b.site attached).comments (b.site attached).comments fun a c =>
          a = c ∧ (a = "" ∨ WholeLines a) ∧ (a = "" → o.Admits place) := fun hcode =>
      comments_abreast h.isPlaced (hplace.imp_right fun h => ⟨h.1, h.2.comment henabled hcode⟩)
    apply (rule_abreast ho h hself hid hb).bind
    intro result result' hresult
    cases hresult with
    | none => exact .pure (.statement (.refl place "") (Or.inl rfl))
    | @statement s t hcode htext hlines hfresh =>
      have hplaced : (b.site attached).kind.placesHooks = false → Solid s ∧ EndsFresh s :=
        fun h => ⟨hlines.solid, hfresh h⟩
      apply (Site.withHooks_abreast ho hid htext hplaced).bind
      rintro _ t' ⟨rfl, htext'⟩
      apply (complete_abreast h.isPlaced hnext (hcomments hcode) htext' hlines.solid
        (Or.inl hlines.ended)).bind
      intro s' t' hwhole
      exact .pure (.statement hwhole.1 (Or.inr ⟨hwhole.2.1, hwhole.2.2 hlines.ended⟩))
    | @expression s order hvalue hsolid =>
      -- No line feed ends the value, so the code behind it has to begin without a hook.
      have hcode := Kind.not_isProcedure_of_isValue hvalue
      have hwhole := complete_abreast h.isPlaced hnext (hcomments hcode)
        (fun place _ => .refl place s) hsolid (Or.inr (hjoined hvalue henabled))
      rw [Site.finished]
      split
      · exact .throw _
      · apply hwhole.bind
        exact fun s' t' hst => .pure (.expression order hst.1 hst.2.1)

end

/-- Every tree of hookable blocks is instrumented, if no hook is ahead of the code that follows a
    value. -/
theorem instrumented {o : Options} {lead : String} {ids : String → Prop} (ho : o.IsHooked lead)
    {b : Block} (h : b.IsHookableTree o) (hids : ∀ c, Within c b → ids c.head.id)
    (hjoined : b.kind.isValue = true → b.head.enabled = true →
      o.statementPrefix.isTruthy = false ∨ ∀ c, b.next = some c → c.StartsApart) :
    b.IsInstrumented o lead ids := by
  induction b using forall_of_children with
  | h b ih =>
    have hstatement : ∀ {c}, c.kind.isValue = false → c ∈ b.children →
        c.IsInstrumented o lead ids := by
      intro c hkind hc
      apply ih c hc (h.child hc) fun d hd => hids d (.child hc hd)
      rw [hkind]
      exact fun h => absurd h Bool.false_ne_true
    apply instrumented_of_children ho h.placed h.self (hids b .self) _ _ hjoined
    · intro c hc
      have hslots := List.mem_append_right (connected b.values) hc
      have hchild := List.mem_append_left b.next.toList hslots
      exact hstatement (h.placed.isPlaced.statements c hc) hchild
    · intro c hc
      exact hstatement (h.placed.isPlaced.next c hc) (mem_children_of_next hc)

end Block

end BlockScript
