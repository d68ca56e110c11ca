/-
  BlockScript.Proofs.Tidy.Flush

  Where the parts of a program begin and end. What a placed block comes to in the main text is text of
  whole lines that begins with something besides white space, if it is not empty: comments begin with
  their mark, and every rule with a name, a value or a word of its own. Definitions begin in the same
  way, those of helpers as well as those of procedures.
-/
import BlockScript.Proofs.Generate.Placed
import BlockScript.Proofs.Helper.Linkage
import BlockScript.Proofs.Literal.Statement

namespace BlockScript

open Gen (Allows)

/-! ## Texts -/

namespace Text

/-- Text of whole lines that begins with something besides white space, or none. -/
def IsFlush (s : String) : Prop :=
  s = "" ∨ FlushLines s

variable {s t : String}

theorem FlushLines.append (hs : FlushLines s) (ht : IsFlush t) : FlushLines (s ++ t) := by
  rcases ht with rfl | ht
  · rwa [String.append_empty]
  · refine ⟨hs.begun.append t, ?_⟩
    rw [String.toList_append, atLineStart_append, hs.ended]
    exact ht.ended

theorem FlushLines.behind (ht : FlushLines t) (hs : IsFlush s) : FlushLines (s ++ t) := by
  rcases hs with rfl | hs
  · rwa [String.empty_append]
  · exact hs.append (Or.inr ht)

theorem Begun.behind (ht : Begun t) (hs : IsFlush s) : Begun (s ++ t) := by
  rcases hs with rfl | hs
  · rwa [String.empty_append]
  · exact hs.begun.append t

theorem IsFlush.append (hs : IsFlush s) (ht : IsFlush t) : IsFlush (s ++ t) := by
  rcases hs with rfl | hs
  · rwa [String.empty_append]
  · exact Or.inr (hs.append ht)

/-- Lines with an empty line between each two. -/
theorem isFlush_join {texts : List String} (h : ∀ text ∈ texts, FlushLines text) :
    IsFlush (join "\n" texts) := by
  have hbreak : ∀ atStart, atLineStart atStart "\n".toList = true := by decide
  induction texts with
  | nil => exact Or.inl rfl
  | cons first rest ih =>
    rw [List.forall_mem_cons] at h
    cases rest with
    | nil => exact Or.inr h.1
    | cons second rest => exact Or.inr ((h.1.begun.flushLines hbreak).append (ih h.2))

end Text

open Text (Begun FlushLines IsFlush)

/-! ## Comments -/

/-- Comment lines begin with their mark. -/
theorem Site.flushLaw : CommentLaw (fun _ => True) IsFlush := by
  apply CommentLaw.of_forall (Or.inl rfl)
  · exact fun s t hs ht => hs.append ht
  · intro s
    have hmark : Begun "// " := by decide
    exact Or.inr ⟨hmark.append _, (isCommentText_commentLines s).ended⟩

/-! ## Code -/

/-- Text of statements that is flush, or code of a value that begins with something besides white
    space, which only a block with an output has. -/
def Code.IsFlush (output : Bool) : Code → Prop
  | .statement text => Text.IsFlush text
  | .expression text _ => output = true ∧ Begun text

theorem Code.IsFlush.of_next {output : Bool} {code : Code} (h : code.IsFlush false) :
    code.IsFlush output := by
  cases code with
  | statement text => exact h
  | expression text order => cases h.1

/-- What the rule of a block gives: whole lines, or a value that begins with something besides white
    space. -/
def Code.IsFlushRule : Option Code → Prop
  | none => True
  | some (.statement text) => FlushLines text
  | some (.expression text _) => Begun text

namespace Site

variable {o : Options} {I : Pass → Prop} {site : Site}

theorem comments_flush (site : Site) : Allows o I site.comments IsFlush :=
  flushLaw.comments_allows (fun _ _ _ => trivial) fun _ _ _ _ _ _ => trivial

/-- With its comments ahead code begins with something besides white space. -/
theorem complete_begun (hnext : Allows o I site.nextCode fun _ => True) {code : String}
    (hcode : Begun code) (alone : Bool) : Allows o I (site.complete code alone) Begun := by
  apply (comments_flush site).bind
  intro comments hcomments
  have hbegun := hcode.behind hcomments
  split
  · exact .pure hbegun
  · apply hnext.bind
    rintro (text | ⟨text, order⟩) -
    · exact .pure (hbegun.append text)
    · exact .throw _

/-- With its comments ahead and what follows behind, code of whole lines is of whole lines. -/
theorem complete_flush (hnext : Allows o I site.nextCode (Code.IsFlush false)) {code : String}
    (hcode : FlushLines code) (alone : Bool) : Allows o I (site.complete code alone) FlushLines := by
  apply (comments_flush site).bind
  intro comments hcomments
  have hlines := hcode.behind hcomments
  split
  · exact .pure hlines
  · apply hnext.bind
    rintro (text | ⟨text, order⟩) htext
    · exact .pure (hlines.append htext)
    · exact .throw _

/-- The first branch of a conditional begins its text. -/
theorem conditional_flush (hbefore : o.statementPrefix.isTruthy = false) (site : Site) :
    Allows o (fun _ => True) site.conditional FlushLines := by
  have hbranch : ∀ i, Allows o (fun _ => True) (site.conditionalBranch i) Begun := by
    intro i
    have hif : Begun "if (" := by decide
    apply (Allows.unknown _).bind
    intro condition _
    apply (Allows.unknown _).bind
    intro body _
    apply Allows.pure
    iterate 4 apply Begun.append
    exact hif
  have hend : ∀ atStart, Text.atLineStart atStart "\n".toList = true := by decide
  rw [Block.conditional_eq]
  apply Allows.options.bind
  rintro _ rfl
  rw [Block.hookText_eq_empty _ hbefore, Gen.lift_ok, pure_bind, branchCount, List.range_succ_eq_map]
  apply (Allows.mapM fun i _ => hbranch i).bind
  -- There is one branch at least.
  rintro _ (_ | ⟨hfirst, -⟩)
  apply (Allows.unknown _).bind
  intro last _
  rw [String.empty_append]
  exact .pure (((hfirst.join " else " _).append last).flushLines hend)

/-- Statements without hooks are text of whole lines; a procedure leaves no text where it stands. -/
theorem statement_flush (hbefore : o.statementPrefix.isTruthy = false) (hsite : site.HasComposedInputs)
    (hvalues : site.HasBegunValues o) (kind : StatementKind) :
    Allows o (Pass.Named (some "")) (site.statement kind)
      fun result => ∀ text, result = some text → FlushLines text := by
  have hkept : Allows o (Pass.Named (some "")) (site.statement kind) fun _ => True :=
    (statement_composed hsite kind).allows (Pass.isInvariant_named _)
  have hconditional : Allows o (fun _ => True) (some <$> site.conditional)
      fun result => ∀ text, result = some text → FlushLines text := by
    rw [map_eq_pure_bind]
    apply (conditional_flush hbefore site).bind
    intro text htext
    apply Allows.pure
    rintro _ ⟨⟩
    exact htext
  have hprocedure : Allows o (fun _ => True) (do site.defineProcedure; pure none : Gen (Option String))
      fun result => ∀ text, result = some text → FlushLines text := by
    apply (Allows.unknown _).bind
    intro _ _
    apply Allows.pure
    rintro _ ⟨⟩
  have hother : kind.writesChains = false → Allows o (Pass.Named (some "")) (site.statement kind)
      fun result => ∀ text, result = some text → FlushLines text := by
    intro hchains
    apply (hvalues.statement_flushLines hsite hchains).mono
    rintro _ ⟨_, rfl, htext⟩ text ⟨⟩
    exact htext
  cases kind with
  | conditional | conditionalElse => exact hconditional.upon hkept
  | function | procedure => exact hprocedure.upon hkept
  | call | returnIf | append | print | assign | assignDynamic => exact hother rfl

/-- What the rule of a block is finished to. -/
theorem finished_flush (hbefore : o.statementPrefix.isTruthy = false)
    (hbehind : o.statementSuffix.isTruthy = false)
    (hnext : Allows o I site.nextCode (Code.IsFlush false)) (alone : Bool) {result : Option Code}
    (hresult : Code.IsFlushRule result) :
    Allows o I (site.finished alone result) (Code.IsFlush site.head.hasOutput) := by
  rcases result with _ | text | ⟨text, order⟩
  · exact .pure (Or.inl rfl)
  · apply (Block.withHooks_allows_of hbefore hbehind site text).bind
    rintro _ rfl
    apply (complete_flush hnext hresult alone).bind
    exact fun whole hwhole => .pure (Or.inr hwhole)
  · rw [finished]
    cases houtput : site.head.hasOutput with
    | false => exact .throw _
    | true =>
      apply (complete_begun (hnext.mono fun _ _ => trivial) hresult alone).bind
      exact fun whole hwhole => .pure ⟨rfl, hwhole⟩

end Site

namespace Block

variable {o : Options}

theorem rule_flush (hbefore : o.statementPrefix.isTruthy = false) {b : Block} (h : b.IsPlacedTree)
    (attached : Bool) :
    Allows o (Pass.Named (some "")) (b.site attached).rule Code.IsFlushRule := by
  have hvalues := h.hasBegunValues (o := o) attached
  rw [Site.rule]
  split
  · rename_i kind hkind
    apply (hvalues.expression_begun kind).bind
    exact fun e he => .pure he
  · rename_i kind hkind
    apply (Site.statement_flush hbefore (b.hasComposedInputs attached) hvalues kind).bind
    rintro (_ | text) htext
    · exact .pure trivial
    · exact .pure (htext text rfl)

/-- The code of a block in a placed tree, under settings without a prefix and a suffix. -/
theorem code_flush (hbefore : o.statementPrefix.isTruthy = false)
    (hbehind : o.statementSuffix.isTruthy = false) {b : Block} (h : b.IsPlacedTree)
    (attached alone : Bool) :
    Allows o (Pass.Named (some "")) (b.code attached alone) (Code.IsFlush b.head.hasOutput) := by
  -- The induction follows the chain: what the rule of a block writes is known from its inputs.
  induction b using forall_of_children generalizing attached alone with
  | h b ih =>
    have hnext : Allows o (Pass.Named (some "")) (b.site attached).nextCode (Code.IsFlush false) := by
      rw [nextCode_site]
      cases hlink : b.next with
      | none => exact .pure (Or.inl rfl)
      | some c =>
        -- What follows in a placed tree is a statement, so it has no output.
        have hchild := mem_children_of_next hlink
        have hcode := ih c hchild (h.child hchild) true false
        rwa [(h.child hchild).isPlaced.hasOutput, h.isPlaced.next c hlink] at hcode
    rw [code_eq_site_code]
    apply Site.code_allows
    case hskip =>
      intro _
      apply ((h.hasBegunValues attached).sound.record _).bind
      intro _ _
      split
      · exact .pure (Or.inl rfl)
      · exact hnext.mono fun _ hcode => hcode.of_next
    case hrule => exact rule_flush hbefore h attached
    case hfinish => exact fun result hresult => Site.finished_flush hbefore hbehind hnext alone hresult

/-- The line of a block that nothing holds is text of whole lines. -/
theorem topLevelLine_flush (hbefore : o.statementPrefix.isTruthy = false)
    (hbehind : o.statementSuffix.isTruthy = false) {b : Block} (h : b.IsPlacedTree) :
    Allows o (Pass.Named (some "")) b.topLevelLine
      fun line => ∀ text, line = some text → FlushLines text := by
  have hend : ∀ atStart, Text.atLineStart atStart ";\n".toList = true := by decide
  rw [topLevelLine_eq]
  apply (code_flush hbefore hbehind h false false).bind
  intro code hcode
  rw [lineOf]
  split
  · apply Allows.pure
    rintro _ ⟨⟩
  · rename_i hne
    -- Whatever is not empty begins with something besides white space; a value gets its line feed.
    have hbegun : Begun code.text := by
      cases code with
      | statement text => exact (Or.resolve_left hcode hne).begun
      | expression text order => exact hcode.2
    split
    · apply (withHooks_allows_of hbefore hbehind _ _).bind
      rintro _ rfl
      apply Allows.pure
      rintro _ ⟨⟩
      exact hbegun.flushLines hend
    · rename_i houtput
      apply Allows.pure
      rintro _ ⟨⟩
      cases code with
      | statement text => exact Or.resolve_left hcode hne
      | expression text order => exact absurd hcode.1 houtput

end Block

/-- The main text of placed trees is flush, under settings without a prefix and a suffix. -/
theorem Session.mainText_flush {o : Options} (hbefore : o.statementPrefix.isTruthy = false)
    (hbehind : o.statementSuffix.isTruthy = false) {blocks : List Block}
    (h : ∀ b ∈ blocks, b.IsPlacedTree) :
    Allows o (Pass.Named (some "")) (mainText blocks) IsFlush := by
  apply (Allows.mapM fun b hb => Block.topLevelLine_flush hbefore hbehind (h b hb)).bind
  intro lines hlines
  apply Allows.pure
  apply Text.isFlush_join
  intro text htext
  obtain ⟨line, hline, hsome⟩ := List.mem_filterMap.mp htext
  obtain ⟨b, -, hflush⟩ := exists_of_mem_forall₂ hlines.flip line hline
  exact hflush text hsome

/-! ## Definitions -/

theorem Site.begun_procedureHead (name : String) (parameters : List String) :
    Begun (procedureHead name parameters) := by
  have hfunction : Begun "function " := by decide
  iterate 4 apply Begun.append
  exact hfunction

namespace Pass

variable {lead? : Option String} {p : Pass}

/-- A pass in which every definition begins with something besides white space. -/
structure DefinesBegun (lead? : Option String) (p : Pass) : Prop where
  named : p.Named lead?
  begun : ∀ entry ∈ p.definitions, Begun entry.2

namespace DefinesBegun

theorem define (h : p.DefinesBegun lead?) {name text : String} (htext : Begun text) :
    (p.define name text).DefinesBegun lead? where
  named := h.named.define name text
  begun entry hentry := by
    rcases Definitions.mem_set hentry with rfl | hold
    · exact htext
    · exact h.begun entry hold

/-- A routine that is asked for is defined already, or it is defined by a text of its own. -/
theorem provide (h : p.DefinesBegun lead?) {indent : Except Fault String} {routine : Routine}
    {emitted : String} (hanswer : (p.provide indent routine.name routine.template).1 = .ok emitted) :
    (p.provide indent routine.name routine.template).2.DefinesBegun lead? := by
  obtain ⟨hnamed, hname⟩ := h.named.provide indent routine.name routine.template
  refine ⟨hnamed, ?_⟩
  rcases provide_eq_ok hanswer with ⟨-, hsame⟩ | ⟨-, lead, -, -, hdefinitions⟩
  · rw [definitions, hsame]
    exact h.begun
  · rw [hdefinitions]
    intro entry hentry
    rcases Definitions.mem_set hentry with rfl | hold
    · obtain ⟨body, hbody⟩ := routine.exists_body (hname emitted hanswer) lead
      change Begun (Helper.reindent lead (Helper.instantiate routine.template emitted))
      rw [hbody]
      exact (Site.begun_procedureHead _ _).append body
    · exact h.begun entry hold

end DefinesBegun

end Pass

namespace Gen

variable {o : Options} {lead? : Option String}

/-- A step that keeps all definitions begun, if it does not fail. -/
def Defines (lead? : Option String) {α : Type} (m : Gen α) : Prop :=
  ∀ o, Allows o (Pass.DefinesBegun lead?) m fun _ => True

namespace Defines

theorem onPass {α : Type} {step : Pass → Except Fault α × Pass}
    (h : ∀ p, p.DefinesBegun lead? → (step p).2.DefinesBegun lead?) :
    Defines lead? (Gen.onPass step) := by
  intro o p a p' hp hrun
  obtain ⟨-, -, rfl⟩ := onPass_eq_ok hrun
  exact ⟨h p hp, trivial⟩

theorem name (name : String) (category : Category) :
    Defines lead? (Gen.onPass fun p => p.name name category) :=
  onPass fun p hp => ⟨(Pass.isInvariant_named lead?).name p name category hp.named, hp.begun⟩

/-- Definitions stay begun where steps are put together. -/
theorem congruence (lead? : Option String) : Congruence Eq fun m _ => Defines lead? m where
  pure _ _ := Allows.pure trivial
  throw fault _ _ := Allows.throw fault
  wrapped _ _ _ _ _ _ _ := Allows.lift fun _ _ => trivial
  bind hm hf o := (hm o).bind fun a _ => hf a o
  options hf o := Allows.options.bind fun o' _ => hf o' o' rfl o
  requirePass _ := Site.requirePass_allows
  record entry := onPass fun p hp => ⟨hp.named.record entry, hp.begun⟩
  call source _ _ h o := (name source .procedure o).bind fun _ _ => (h o).bind fun _ _ =>
    Allows.pure trivial
  routine routine arguments _ := by
    intro o p a p' hp hrun
    obtain ⟨emitted, q, hhelper, hpure⟩ := bind_eq_ok hrun
    obtain ⟨rfl, rfl⟩ := EStateM.Result.ok.inj hpure
    obtain ⟨hanswer, rfl⟩ := helper_eq_ok hhelper
    exact ⟨hp.provide hanswer, trivial⟩

end Defines

end Gen

open Gen (Defines)

/-- What defines a procedure keeps definitions begun, if the inputs do: comment lines or the head of
    the procedure begin its text. -/
theorem Site.defineProcedure_defines {lead? : Option String} (site : Site)
    (h : Matched Eq (fun m _ => Defines lead? m) site site)
    (hcomplete : ∀ code, Defines lead? (site.complete code false)) :
    Defines lead? site.defineProcedure := by
  have hcongruence := Defines.congruence lead?
  intro o
  have hkept : ∀ name, Defines lead? (site.procedureText o name) := fun name =>
    h.procedureText hcongruence (fun _ _ h => h)
      (fun _ _ parameter _ => parameterName_related hcongruence (fun _ => .name _ _) parameter)
      hcomplete rfl name
  have hbegun : ∀ name, Allows o (fun _ => True) (site.procedureText o name) Begun := fun name =>
    site.procedureText_allows_of
      (fun _ body => complete_begun (Allows.unknown _) ((begun_procedureHead _ _).append body) false) o
  rw [defineProcedure_eq]
  apply Allows.options.bind
  rintro _ rfl
  apply (Defines.name _ .procedure _).bind
  intro name _
  apply ((hbegun name).upon (hkept name _)).bind
  intro text htext
  exact Defines.onPass (fun p hp => hp.define htext) _

/-- The main text of a workspace leaves all definitions begun. -/
theorem Session.mainText_defines (lead? : Option String) (blocks : List Block) :
    Defines lead? (mainText blocks) :=
  Block.mainText_related (Defines.congruence lead?) (fun _ _ ho => ho) (fun _ => .name _ _) Site.defineProcedure_defines
    blocks

end BlockScript
