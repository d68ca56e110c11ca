/-
  BlockScript.Proofs.Statement.WellFormed

  The code of statements is well formed: it is empty or ends with a line feed, its literals are closed
  and its brackets match, whatever texts, names and comments go into it. So are the definitions of
  procedures, which end with a brace.

  Each rule writes pieces that open and close brackets around values, names and chains that are
  balanced. Comment lines and indents have no brackets that count, so by induction over the tree every
  chain is well formed where it stands (`code_allows_statements`).
-/
import BlockScript.Proofs.Comment.Erasure
import BlockScript.Proofs.Expression.Exposure
import BlockScript.Proofs.Generate.Placed
import BlockScript.Proofs.Literal.Statement
import BlockScript.Proofs.Statement.Text

namespace BlockScript

open Script
open Gen (Allows)

/-! ## Passes -/

namespace Pass

/-- Whether the procedures that a pass defines have well-formed texts, apart from definitions that were
    there before. -/
def DefinesOver (old : Definitions) (p : Pass) : Prop :=
  ∀ name text, (Definitions.procedureKey name, text) ∈ p.definitions →
    (Definitions.procedureKey name, text) ∈ old ∨ IsDefinition text

namespace DefinesOver

variable {old : Definitions} {p : Pass}

/-- A helper is no procedure. -/
theorem provide (h : p.DefinesOver old) (indent : Except Fault String) (name : String)
    (template : List String) : (p.provide indent name template).2.DefinesOver old := by
  intro name' text hentry
  simp only [Pass.provide, Registry.provide] at hentry
  cases hhelper : p.registry.helpers.lookup name with
  | some emitted =>
    rw [hhelper] at hentry
    exact h name' text hentry
  | none =>
    rw [hhelper] at hentry
    cases hanswer : (p.registry.names.distinct name .procedure).answer with
    | error fault =>
      simp only [hanswer] at hentry
      exact h name' text hentry
    | ok emitted =>
      simp only [hanswer] at hentry
      cases indent with
      | error fault => exact h name' text hentry
      | ok indent =>
        rcases Definitions.mem_set hentry with heq | hbefore
        · exact absurd (Prod.mk.inj heq).1.symm (Definitions.helperKey_ne_procedureKey name name')
        · exact h name' text hbefore

theorem define (h : p.DefinesOver old) (name : String) {text : String} (htext : IsDefinition text) :
    (p.define name text).DefinesOver old := by
  intro name' text' hentry
  rcases Definitions.mem_set hentry with heq | hbefore
  · rw [(Prod.mk.inj heq).2]
    exact Or.inr htext
  · exact h name' text' hbefore

end DefinesOver

/-- The passes that the rules for statements go through: names are identifiers, and procedures have
    well-formed definitions. -/
def Sane (old : Definitions) (p : Pass) : Prop :=
  p.Named (some "") ∧ p.DefinesOver old

end Pass

/-- Of what is read nothing is asked. -/
def Reading.any : Reading where
  slot _ _ _ := True
  variableName _ _ := True
  procedureName _ _ := True
  helperName _ _ := True

section
variable {o : Options} {old : Definitions}

/-- Steps other than definitions of procedures define none. -/
theorem Reading.any_sound {site : Site}
    (hvalue : ∀ name input, Site.inSlot site.values name = some input →
      Allows o (Pass.DefinesOver old) input.code fun _ => True) :
    Reading.any.Sound o (Pass.DefinesOver old) site where
  record := Gen.record_allows fun _ _ hp => hp
  value name outer := Site.value_allows (hvalue name) (fun _ => trivial) (fun _ => trivial)
    fun _ _ _ => trivial
  variableName name := by
    intro p emitted p' hp hrun
    obtain ⟨-, -, rfl⟩ := Gen.onPass_eq_ok hrun
    exact ⟨hp, trivial⟩
  procedureName name := by
    intro p emitted p' hp hrun
    obtain ⟨-, -, rfl⟩ := Gen.onPass_eq_ok hrun
    exact ⟨hp, trivial⟩
  helper name template _ := by
    apply Allows.options.bind
    rintro _ rfl p emitted p' hp hrun
    obtain ⟨-, -, rfl⟩ := Gen.onPass_eq_ok hrun
    exact ⟨hp.provide _ name template, trivial⟩

/-- Values define no procedures. -/
theorem Block.ValueTree.code_definesOver {b : Block} (h : b.ValueTree) :
    Allows o (Pass.DefinesOver old) (b.code true false) fun _ => True := by
  have hrecord : ∀ entry, Allows o (Pass.DefinesOver old) (Gen.record entry) fun _ => True :=
    Gen.record_allows fun _ _ hp => hp
  apply h.code_allows_of hrecord trivial _ true false (Or.inl rfl)
  intro site kind hvalue
  exact (Site.expression_writes (Reading.any_sound hvalue) kind).mono fun _ _ => trivial

/-- What a block in a placed tree reads fits its slots. -/
theorem Block.IsPlacedTree.sound {b : Block} (h : b.IsPlacedTree) (attached : Bool) :
    fittingReading.Sound o (Pass.Sane old) (b.site attached) := by
  have htree : ∀ name c, (name, some c) ∈ b.values → c.ValueTree := by
    intro name c hc
    have hmem : c ∈ connected b.values := List.mem_filterMap.mpr ⟨_, hc, rfl⟩
    obtain ⟨hkind, hnext⟩ := h.isPlaced.values c hmem
    exact (h.child (mem_children_of_values hmem)).valueTree hkind hnext
  have hany : Reading.any.Sound o (Pass.DefinesOver old) (b.site attached) := by
    apply Reading.any_sound
    intro name input hinput
    change Site.inSlot (inputs b.values) name = some input at hinput
    rw [inSlot_inputs, Option.map_eq_some_iff] at hinput
    obtain ⟨c, hc, rfl⟩ := hinput
    exact (htree name c (mem_of_inSlot hc)).code_definesOver
  have hfits : fittingReading.Sound o (Pass.Named (some "")) (b.site attached) := by
    apply fittingReading_sound keepsNames_empty
    intro name input hinput
    change Site.inSlot (inputs b.values) name = some input at hinput
    rw [inSlot_inputs, Option.map_eq_some_iff] at hinput
    obtain ⟨c, hc, rfl⟩ := hinput
    exact (htree name c (mem_of_inSlot hc)).code_allows keepsNames_empty true false (Or.inl rfl)
  exact {
    record := fun entry => (hfits.record entry).along (hany.record entry)
    value := fun name outer => (hfits.value name outer).along (hany.value name outer)
    variableName := fun name => (hfits.variableName name).along (hany.variableName name)
    procedureName := fun name => (hfits.procedureName name).along (hany.procedureName name)
    helper := fun name template htemplate =>
      (hfits.helper name template htemplate).along (hany.helper name template htemplate) }

end

/-! ## Rules -/

/-- Code of statements that is well formed. -/
def Code.IsStatements (code : Code) : Prop :=
  ∃ text, code = .statement text ∧ Script.IsStatements text

namespace Site

variable {o : Options} {lead : String} {I : Pass → Prop} {site : Site}
  (ho : o.IsPlain "" lead) (hlead : ∀ c ∈ lead.toList, c = ' ' ∨ c = '\t')
  (hsite : fittingReading.Sound o I site)

/-! ### Parts of the rules -/

section
include hsite

/-- A value that is filled is balanced. -/
theorem valueOr_balanced (name : String) (outer : Order) {default : String}
    (hdefault : Operand 0 default) : Allows o I (site.valueOr name outer default) Balanced :=
  (hsite.valueOr name outer default).mono fun _ h =>
    (fittingReading_fits.filled hdefault h).balanced

theorem value_balanced (name : String) (outer : Order) :
    Allows o I (site.value name outer) Balanced := by
  apply (hsite.value name outer).mono
  rintro _ (rfl | h)
  · exact balanced_empty
  · exact h.balanced

theorem variableName_balanced (name : String) : Allows o I (Gen.variableName name) Balanced :=
  (hsite.variableName name).mono fun _ h => (operand_name h).balanced

end

section
include ho hlead

theorem indentShown_balanced : Balanced o.indentShown := by
  rw [Options.indentShown, ho.indent]
  exact balanced_blank hlead

/-- Behind an indent a text is balanced if it was before. -/
theorem indented_balanced {text : String} (h : Balanced text) :
    Allows o I (indented text) Balanced := by
  have hindent : o.indentText = .ok lead := by
    rw [Options.indentText, ho.indent]
    rfl
  apply Allows.options.bind
  rintro _ rfl
  rw [hindent, Gen.lift_ok, pure_bind, prefixLines_of_inert ho.inert, Gen.lift_ok]
  apply Allows.pure
  apply h.prefixed ho.inert
  intro c hc
  rcases hlead c hc with rfl | rfl <;> rfl

/-- The chain in a slot is balanced if the code of the block in it is well formed. -/
theorem chain_balanced {name : String}
    (h : ∀ input, inSlot site.statements name = some input →
      Allows o I input.code Code.IsStatements) : Allows o I (site.chain name) Balanced := by
  rw [chain]
  cases hslot : inSlot site.statements name with
  | none => exact .pure balanced_empty
  | some input =>
    apply (h input hslot).bind
    rintro _ ⟨text, rfl, htext⟩
    dsimp only
    split
    · exact .pure balanced_empty
    · exact indented_balanced ho hlead htext.balanced

end

/-! ### Conditionals -/

section
variable (hchain : ∀ name, Allows o I (site.chain name) Balanced)
include ho hchain

theorem branch_balanced (name : String) : Allows o I (site.branch name) Balanced := by
  apply (Block.branchHook_allows ho site).bind
  rintro _ rfl
  apply (hchain name).bind
  intro body hbody
  rw [String.empty_append]
  exact .pure hbody

include hsite

theorem conditionalBranch_balanced (i : Nat) : Allows o I (site.conditionalBranch i) Balanced := by
  apply (valueOr_balanced hsite ("IF" ++ toString i) .none (by decide)).bind
  intro condition hcondition
  apply (branch_balanced ho hchain ("DO" ++ toString i)).bind
  exact fun body hbody => .pure (balanced_guarded hcondition hbody)

theorem conditional_wellFormed : Allows o I site.conditional Script.IsStatements := by
  rw [Block.conditional_eq]
  apply Allows.options.bind
  intro options hoptions
  obtain rfl := hoptions.symm
  rw [Block.hookText_eq_empty site ho.statementPrefix, Gen.lift_ok, pure_bind]
  apply (Allows.mapM fun i _ => conditionalBranch_balanced ho hsite hchain i).bind
  intro branches hbranches
  have hall : ∀ branch ∈ branches, Balanced branch := by
    intro branch hbranch
    obtain ⟨-, -, h⟩ := exists_of_mem_forall₂ hbranches.flip branch hbranch
    exact h
  have helse : Balanced " else " := by decide
  have hlast : Allows o I (Block.lastBranch site o) Balanced := by
    rw [Block.lastBranch]
    split
    · apply (branch_balanced ho hchain "ELSE").bind
      exact fun body hbody => .pure (balanced_otherwise hbody)
    · exact .pure balanced_empty
  apply hlast.bind
  intro last hlast
  have hfeed : Balanced "\n" := by decide
  have htext := (balanced_empty.append (balanced_join helse hall)).append hlast
  exact .pure ((htext.append hfeed).statements ⟨"", rfl⟩)

end

/-! ### Statements of values -/

section
include hsite

theorem assign_wellFormed : Allows o I site.assign Script.IsStatements := by
  apply (valueOr_balanced hsite "VALUE" .assignment (by decide)).bind
  intro value hvalue
  apply (variableName_balanced hsite _).bind
  intro name hname
  have hassign : Balanced " = " := by decide
  have hend : Balanced ";\n" := by decide
  exact .pure ((((hname.append hassign).append hvalue).append hend).statements ⟨";", rfl⟩)

theorem append_wellFormed : Allows o I site.append Script.IsStatements := by
  apply (variableName_balanced hsite _).bind
  intro name hname
  apply (hsite.valueOr "TEXT" .none "''").bind
  intro value hvalue
  have hforced := operand_forceString (fittingReading_fits.filled (by decide) hvalue)
  have hassign : Balanced " += " := by decide
  have hend : Balanced ";\n" := by decide
  exact .pure ((((hname.append hassign).append hforced.balanced).append hend).statements ⟨";", rfl⟩)

theorem print_wellFormed : Allows o I site.print Script.IsStatements := by
  apply (valueOr_balanced hsite "TEXT" .none (by decide)).bind
  intro text htext
  have hopen : Leads [] "window.alert(" [.round] := by decide
  have hclose : Leads [.round] ");\n" [] := by decide
  have hcall : Balanced ("window.alert(" ++ text ++ ");\n") :=
    (hopen.append (htext.leads _)).append hclose
  exact .pure (hcall.statements ⟨");", rfl⟩)

theorem callStatement_wellFormed : Allows o I site.callStatement Script.IsStatements := by
  apply (call_writes hsite).bind
  intro e he
  have hend : Balanced ";\n" := by decide
  have hcall := (he.operand fittingReading_fits).balanced
  exact .pure ((hcall.append hend).statements ⟨";", rfl⟩)

include ho hlead

theorem returnIf_wellFormed : Allows o I site.returnIf Script.IsStatements := by
  have hreturn : ∀ {condition result : String}, Balanced condition → Balanced result →
      Script.IsStatements ("if (" ++ condition ++ ") \x7b\n" ++ "" ++ o.indentShown ++ result ++
        "\x7d\n") := by
    intro condition result hcondition hresult
    have hopen : Leads [] "if (" [.round] := by decide
    have hmiddle : Leads [.round] ") \x7b\n" [.curly] := by decide
    have hclose : Leads [.curly] "\x7d\n" [] := by decide
    have hhead := ((hopen.append (hcondition.leads _)).append hmiddle).append (balanced_empty.leads _)
    have hindent := (indentShown_balanced ho hlead).leads [.curly]
    have hwhole : Balanced _ := ((hhead.append hindent).append (hresult.leads _)).append hclose
    exact hwhole.statements ⟨"\x7d", rfl⟩
  apply (valueOr_balanced hsite "CONDITION" .none (by decide)).bind
  intro condition hcondition
  apply (Block.branchHook_allows ho site).bind
  rintro _ rfl
  apply Allows.options.bind
  rintro _ rfl
  dsimp only
  split
  · apply (valueOr_balanced hsite "VALUE" .none (by decide)).bind
    intro value hvalue
    have hword : Balanced "return " := by decide
    have hend : Balanced ";\n" := by decide
    exact .pure (hreturn hcondition ((hword.append hvalue).append hend))
  · exact .pure (hreturn hcondition (by decide))

end

/-! ### Comments and what follows -/

/-- The comments ahead of code are well formed. -/
theorem comments_wellFormed (site : Site) : Allows o I site.comments Script.IsStatements :=
  (commentLaw.comments_allows (fun _ _ _ => trivial) fun _ _ _ _ _ _ => trivial).mono
    fun _ => isStatements_comments

/-- Whole code is well formed if the code of the rule is, and that of the block that follows. -/
theorem complete_wellFormed (hnext : Allows o I site.nextCode Code.IsStatements) {text : String}
    (htext : Script.IsStatements text) (alone : Bool) :
    Allows o I (site.complete text alone) Script.IsStatements := by
  apply (comments_wellFormed site).bind
  intro comments hcomments
  have hcode := hcomments.append htext
  split
  · exact .pure hcode
  · apply hnext.bind
    rintro _ ⟨rest, rfl, hrest⟩
    exact .pure (hcode.append hrest)

/-- A definition that nothing follows stays one behind its comments. -/
theorem complete_definition (hnext : site.next = none) {text : String} (htext : IsDefinition text) :
    Allows o I (site.complete text false) IsDefinition := by
  have hcode : site.nextCode = pure (.statement "") := by
    rw [nextCode, hnext]
  apply (comments_wellFormed site).bind
  intro comments hcomments
  rw [if_neg Bool.false_ne_true, hcode, pure_bind]
  dsimp only
  rw [String.append_empty]
  exact .pure (hcomments.ahead htext)

/-! ### Procedures -/

/-- The text of a procedure is a well-formed definition. -/
theorem procedureText_wellFormed (ho : o.IsPlain "" lead)
    (hlead : ∀ c ∈ lead.toList, c = ' ' ∨ c = '\t') (hsite : fittingReading.Sound o I site)
    (hchain : ∀ name, Allows o I (site.chain name) Balanced) (hnext : site.next = none)
    {name : String} (hname : isName name.toList = true) :
    Allows o I (site.procedureText o name) IsDefinition := by
  rw [procedureText, Block.hookText_eq_empty site ho.statementPrefix, Gen.lift_ok, pure_bind,
    Block.hookText_eq_empty site ho.statementSuffix, Gen.lift_ok, pure_bind]
  apply (Block.indentedHook_allows rfl).bind
  rintro _ rfl
  rw [Block.hookText_eq_empty site ho.loopTrap, Gen.lift_ok, pure_bind]
  apply (Block.indentedHook_allows rfl).bind
  rintro _ rfl
  apply (hchain "STACK").bind
  intro body hbody
  apply (value_balanced hsite "RETURN" .none).bind
  intro value hvalue
  apply Allows.lifted.bind
  intro names _
  have hparameter : ∀ parameter ∈ names, Allows o I (parameterName parameter) Balanced := by
    intro parameter _
    cases parameter with
    | str name => exact variableName_balanced hsite name
    | _ => exact .throw _
  apply (Allows.mapM hparameter).bind
  intro parameters hparameters
  have hall : ∀ parameter ∈ parameters, Balanced parameter := by
    intro parameter hmem
    obtain ⟨-, -, h⟩ := exists_of_mem_forall₂ hparameters.flip parameter hmem
    exact h
  have hcomma : Balanced ", " := by decide
  -- Without hooks the body is the chain and, if there is a value, the line that returns it.
  have hagain : Balanced (if body ≠ "" && value ≠ "" then "" else "") := by
    split <;> exact balanced_empty
  have hresult : Balanced
      (if value = "" then "" else o.indentShown ++ "return " ++ value ++ ";\n") := by
    split
    · exact balanced_empty
    · have hword : Balanced "return " := by decide
      have hend : Balanced ";\n" := by decide
      exact (((indentShown_balanced ho hlead).append hword).append hvalue).append hend
  have hlines := (((balanced_empty.append balanced_empty).append hbody).append hagain).append hresult
  have hdefinition :=
    isDefinition_procedure (operand_name hname).balanced (balanced_join hcomma hall) hlines
  simp only [← String.append_assoc] at hdefinition
  exact complete_definition hnext hdefinition

/-- What defines a procedure gives it a well-formed definition. -/
theorem defineProcedure_wellFormed (ho : o.IsPlain "" lead)
    (hlead : ∀ c ∈ lead.toList, c = ' ' ∨ c = '\t') (hsite : fittingReading.Sound o I site)
    (hchain : ∀ name, Allows o I (site.chain name) Balanced) (hnext : site.next = none)
    (hdefine : ∀ name text, IsDefinition text → Allows o I (Gen.define name text) fun _ => True) :
    Allows o I site.defineProcedure fun _ => True := by
  rw [defineProcedure_eq]
  apply Allows.options.bind
  intro options hoptions
  obtain rfl := hoptions.symm
  apply (hsite.procedureName _).bind
  intro name hname
  apply (procedureText_wellFormed ho hlead hsite hchain hnext hname).bind
  exact fun text htext => hdefine name text htext

/-- The rules for statements give well-formed text, or nothing where they define a procedure. -/
theorem statement_wellFormed (ho : o.IsPlain "" lead)
    (hlead : ∀ c ∈ lead.toList, c = ' ' ∨ c = '\t') (hsite : fittingReading.Sound o I site)
    (hchain : ∀ name, Allows o I (site.chain name) Balanced) {kind : StatementKind}
    (hdefine : kind = .function ∨ kind = .procedure →
      Allows o I site.defineProcedure fun _ => True) :
    Allows o I (site.statement kind) fun result => ∀ text ∈ result, Script.IsStatements text := by
  have hsome : ∀ {m : Gen String}, Allows o I m Script.IsStatements →
      Allows o I (some <$> m) fun result => ∀ text ∈ result, Script.IsStatements text := by
    intro m hm
    rw [map_eq_pure_bind]
    apply hm.bind
    exact fun text htext => .pure fun _ hmem => Option.some.inj hmem ▸ htext
  have hnone : Allows o I (pure none) fun result => ∀ text ∈ result, Script.IsStatements text :=
    .pure fun _ hmem => by cases hmem
  cases kind with
  | conditional | conditionalElse => exact hsome (conditional_wellFormed ho hsite hchain)
  | function => exact (hdefine (Or.inl rfl)).bind fun _ _ => hnone
  | procedure => exact (hdefine (Or.inr rfl)).bind fun _ _ => hnone
  | call => exact hsome (callStatement_wellFormed hsite)
  | returnIf => exact hsome (returnIf_wellFormed ho hlead hsite)
  | append => exact hsome (append_wellFormed hsite)
  | print => exact hsome (print_wellFormed hsite)
  | assign | assignDynamic => exact hsome (assign_wellFormed hsite)

end Site

/-! ## Blocks -/

namespace Block

variable {o : Options} {lead : String} {old : Definitions}

/-- Whether no block of a tree follows the definition of a procedure. -/
def EndsProcedures (b : Block) : Prop :=
  ∀ c, Within c b → c.kind.IsProcedure → c.next = none

theorem EndsProcedures.child {b c : Block} (h : b.EndsProcedures) (hc : c ∈ b.children) :
    c.EndsProcedures :=
  fun d hd => h d (.child hc hd)

/-- A tree in which nothing follows procedures is put together from such trees. -/
theorem endsProcedures_of_children {b : Block} (h : b.kind.IsProcedure → b.next = none)
    (hchildren : ∀ c ∈ b.children, c.EndsProcedures) : b.EndsProcedures :=
  forall_within_of_children h hchildren

/-- A well-formed definition keeps the passes sane. -/
theorem define_sane (name : String) {text : String} (htext : IsDefinition text) :
    Allows o (Pass.Sane old) (Gen.define name text) fun _ => True := by
  intro p _ p' hp hrun
  obtain ⟨-, -, rfl⟩ := Gen.onPass_eq_ok hrun
  exact ⟨⟨hp.1.define name text, hp.2.define name htext⟩, trivial⟩

/-- What the rule of a statement in a placed tree gives: well-formed text, or nothing. -/
theorem rule_wellFormed (ho : o.IsPlain "" lead) (hlead : ∀ c ∈ lead.toList, c = ' ' ∨ c = '\t')
    {b : Block} (h : b.IsPlacedTree) (hkind : b.kind.isValue = false) (hends : b.EndsProcedures)
    (attached : Bool)
    (hchain : ∀ name, Allows o (Pass.Sane old) ((b.site attached).chain name) Balanced) :
    Allows o (Pass.Sane old) (b.site attached).rule
      fun result => ∀ code ∈ result, Code.IsStatements code := by
  have hsite : fittingReading.Sound o (Pass.Sane old) (b.site attached) := h.sound attached
  have hsame : (b.site attached).kind = b.kind := rfl
  rw [Site.rule, hsame]
  cases hb : b.kind with
  | value kind =>
    rw [hb] at hkind
    cases hkind
  | statement kind =>
    have hdefine : kind = .function ∨ kind = .procedure →
        Allows o (Pass.Sane old) (b.site attached).defineProcedure fun _ => True := by
      intro hprocedure
      have hnext : (b.site attached).next = none := by
        have hlast : b.next = none := by
          apply hends b .self
          rw [Kind.IsProcedure, hb]
          simpa using hprocedure
        rw [site_next, hlast]
        rfl
      exact Site.defineProcedure_wellFormed ho hlead hsite hchain hnext fun name _ =>
        define_sane name
    apply (Site.statement_wellFormed ho hlead hsite hchain hdefine).bind
    intro result hresult
    apply Allows.pure
    intro code hcode
    obtain ⟨text, htext, rfl⟩ := Option.map_eq_some_iff.mp hcode
    exact ⟨text, rfl, hresult text htext⟩

/-- The chain in a slot is balanced if the code of the blocks in slots is well formed. -/
theorem chain_allows_balanced (ho : o.IsPlain "" lead)
    (hlead : ∀ c ∈ lead.toList, c = ' ' ∨ c = '\t') {b : Block}
    (hb : ∀ c ∈ connected b.statements,
      Allows o (Pass.Sane old) (c.code true false) Code.IsStatements)
    (attached : Bool) (name : String) :
    Allows o (Pass.Sane old) ((b.site attached).chain name) Balanced := by
  apply Site.chain_balanced ho hlead
  intro input hinput
  change Site.inSlot (inputs b.statements) name = some input at hinput
  rw [inSlot_inputs, Option.map_eq_some_iff] at hinput
  obtain ⟨c, hc, rfl⟩ := hinput
  exact hb c (List.mem_filterMap.mpr ⟨_, mem_of_inSlot hc, rfl⟩)

/-- The code of a statement in a placed tree is well formed, and so are the definitions of procedures
    in it. -/
theorem code_allows_statements (ho : o.IsPlain "" lead)
    (hlead : ∀ c ∈ lead.toList, c = ' ' ∨ c = '\t') {b : Block} (h : b.IsPlacedTree)
    (hkind : b.kind.isValue = false) (hends : b.EndsProcedures) (attached alone : Bool) :
    Allows o (Pass.Sane old) (b.code attached alone) Code.IsStatements := by
  -- Induction over the tree: the chains of a block and what follows it are trees of statements too.
  induction b using forall_of_children generalizing attached alone with
  | h b ih =>
    have hnext : Allows o (Pass.Sane old) (b.site attached).nextCode Code.IsStatements := by
      rw [nextCode_site]
      cases hlink : b.next with
      | none => exact .pure ⟨"", rfl, isStatements_empty⟩
      | some c =>
        have hchild := mem_children_of_next hlink
        exact ih c hchild (h.child hchild) (h.isPlaced.next c hlink) (hends.child hchild) true false
    have hchain : ∀ name, Allows o (Pass.Sane old) ((b.site attached).chain name) Balanced := by
      apply chain_allows_balanced ho hlead
      intro c hc
      have hchild := mem_children_of_statements hc
      exact ih c hchild (h.child hchild) (h.isPlaced.statements c hc) (hends.child hchild) true
        false
    rw [code_eq_site_code]
    apply Site.code_allows
    case hskip =>
      intro _
      apply ((h.sound attached).record _).bind
      intro _ _
      split
      · exact .pure ⟨"", rfl, isStatements_empty⟩
      · exact hnext
    case hrule => exact rule_wellFormed ho hlead h hkind hends attached hchain
    case hfinish =>
      rintro (_ | code) hresult
      · exact .pure ⟨"", rfl, isStatements_empty⟩
      · obtain ⟨text, rfl, htext⟩ := hresult code rfl
        apply (withHooks_allows ho _ text).bind
        rintro _ rfl
        apply (Site.complete_wellFormed hnext htext alone).bind
        exact fun whole hwhole => .pure ⟨whole, rfl, hwhole⟩

/-- The text of a procedure in a placed tree is a well-formed definition. -/
theorem procedureText_allows_definition (ho : o.IsPlain "" lead)
    (hlead : ∀ c ∈ lead.toList, c = ' ' ∨ c = '\t') {b : Block} (h : b.IsPlacedTree)
    (hends : b.EndsProcedures) (hkind : b.kind.IsProcedure) (attached : Bool) {name : String}
    (hname : isName name.toList = true) :
    Allows o (Pass.Sane old) ((b.site attached).procedureText o name) IsDefinition := by
  have hnext : (b.site attached).next = none := by
    rw [site_next, hends b .self hkind]
    rfl
  apply Site.procedureText_wellFormed ho hlead (h.sound attached) _ hnext hname
  apply chain_allows_balanced ho hlead
  intro c hc
  have hchild := mem_children_of_statements hc
  exact code_allows_statements ho hlead (h.child hchild) (h.isPlaced.statements c hc)
    (hends.child hchild) true false

/-- From every pass without a prefix for variables, under settings without hooks and with an indent of
    spaces and tabs, the code of a chain of statements is empty or ends with a line feed, has closed
    literals and matching brackets. The procedures that are defined on the way have definitions that
    end with a brace and are well formed in the same way, and so has every procedure of the chain,
    wherever it is defined. -/
theorem code_wellFormed (ho : o.IsPlain "" lead) (hlead : ∀ c ∈ lead.toList, c = ' ' ∨ c = '\t')
    {b : Block} (h : b.IsPlacedTree) (hkind : b.kind.isValue = false) (hends : b.EndsProcedures)
    {p p' : Pass} (hp : p.Reachable (some "")) {attached alone : Bool} {code : Code}
    (hrun : b.code attached alone o p = .ok code p') :
    (∃ text, code = .statement text ∧ (text = "" ∨ ∃ front, text = front ++ "\n") ∧
      Closed text ∧ Balanced text) ∧
    (∀ name text, (Definitions.procedureKey name, text) ∈ p'.definitions →
      (Definitions.procedureKey name, text) ∈ p.definitions ∨
        (∃ front, text = front ++ "\x7d") ∧ Closed text ∧ Balanced text) ∧
    ∀ c, Within c b → c.kind.IsProcedure → ∀ (attached : Bool) (name text : String) (q q' : Pass),
      isName name.toList = true → q.Reachable (some "") →
      (c.site attached).procedureText o name o q = .ok text q' →
      (∃ front, text = front ++ "\x7d") ∧ Closed text ∧ Balanced text := by
  have hsane : ∀ {q : Pass}, q.Reachable (some "") → q.Sane q.definitions :=
    fun hq => ⟨hq.named, fun _ _ hentry => Or.inl hentry⟩
  refine ⟨?_, ?_, ?_⟩
  · obtain ⟨-, text, hcode, htext⟩ :=
      code_allows_statements ho hlead h hkind hends attached alone p code p' (hsane hp) hrun
    exact ⟨text, hcode, htext.ended, htext.balanced.closed, htext.balanced⟩
  · intro name text hentry
    have hsane' := (code_allows_statements ho hlead h hkind hends attached alone p code p'
      (hsane hp) hrun).1
    apply (hsane'.2 name text hentry).imp_right
    exact fun htext => ⟨htext.ended, htext.balanced.closed, htext.balanced⟩
  · intro c hc hprocedure attached name text q q' hname hq hrun
    have hplaced : c.IsPlacedTree := fun d hd => h d (hd.trans hc)
    have hlast : c.EndsProcedures := fun d hd => hends d (hd.trans hc)
    have htext := (procedureText_allows_definition ho hlead hplaced hlast hprocedure attached hname q
      text q' (hsane hq) hrun).2
    exact ⟨htext.ended, htext.balanced.closed, htext.balanced⟩

end Block

/-! ### Brackets in texts and comments -/

/-- A text with a comment in which a bracket is open. -/
def bracedText (text : String) : Block :=
  .mk ⟨.value .text, "text", [(.str "TEXT", .str text)], .str "(", .bool true, true, []⟩ [] [] none

/-- A print of such a text. -/
def bracedPrint (text : String) : Block :=
  .mk ⟨.statement .print, "print", [], .null, .bool false, true, []⟩
    [("TEXT", some (bracedText text))] [] none

/-- A procedure that returns a text with a quote and a brace, behind a comment with brackets. -/
def bracedProcedure : Block :=
  .mk ⟨.statement .function, "procedure", [(.str "NAME", .str "f")], .str "\x7b [", .bool false, true,
    []⟩ [("RETURN", some (bracedText "a\n'\x7b"))] [("STACK", some (bracedPrint ")"))] none

/-- A conditional that prints a text which looks like a comment, with the procedure behind it. -/
def bracedChoice : Block :=
  .mk ⟨.statement .conditional, "choice", [], .str "either (", .bool false, true, []⟩ []
    [("DO0", some (bracedPrint "// ]"))] (some bracedProcedure)

theorem isPlacedTree_bracedText (text : String) : (bracedText text).IsPlacedTree := by
  apply Block.isPlacedTree_mk rfl <;> intro c hc <;> cases hc

theorem isPlacedTree_bracedPrint (text : String) : (bracedPrint text).IsPlacedTree := by
  apply Block.isPlacedTree_mk rfl
  · intro c hc
    obtain rfl : c = bracedText text := List.mem_singleton.mp hc
    exact ⟨rfl, rfl, isPlacedTree_bracedText text⟩
  · intro c hc
    cases hc
  · intro c hc
    cases hc

theorem isPlacedTree_bracedProcedure : bracedProcedure.IsPlacedTree := by
  apply Block.isPlacedTree_mk rfl
  · intro c hc
    obtain rfl := List.mem_singleton.mp hc
    exact ⟨rfl, rfl, isPlacedTree_bracedText _⟩
  · intro c hc
    obtain rfl := List.mem_singleton.mp hc
    exact ⟨rfl, isPlacedTree_bracedPrint _⟩
  · intro c hc
    cases hc

theorem isPlacedTree_bracedChoice : bracedChoice.IsPlacedTree := by
  apply Block.isPlacedTree_mk rfl
  · intro c hc
    cases hc
  · intro c hc
    obtain rfl := List.mem_singleton.mp hc
    exact ⟨rfl, isPlacedTree_bracedPrint _⟩
  · intro c hc
    obtain rfl := Option.some.inj hc
    exact ⟨rfl, isPlacedTree_bracedProcedure⟩

theorem endsProcedures_bracedChoice : bracedChoice.EndsProcedures := by
  have htext : ∀ text, (bracedText text).EndsProcedures := fun text =>
    Block.endsProcedures_of_children (fun _ => rfl) fun c hc => by cases hc
  have hprint : ∀ text, (bracedPrint text).EndsProcedures := by
    intro text
    apply Block.endsProcedures_of_children (fun _ => rfl)
    intro c hc
    obtain rfl := List.mem_singleton.mp hc
    exact htext text
  have hprocedure : bracedProcedure.EndsProcedures := by
    apply Block.endsProcedures_of_children (fun _ => rfl)
    intro c hc
    rcases List.mem_cons.mp hc with rfl | hc
    · exact htext _
    · obtain rfl := List.mem_singleton.mp hc
      exact hprint _
  apply Block.endsProcedures_of_children
  · rintro (h | h) <;> cases h
  · intro c hc
    rcases List.mem_cons.mp hc with rfl | hc
    · exact hprint _
    · obtain rfl := List.mem_singleton.mp hc
      exact hprocedure

/-- Brackets in texts and comments do not count, and all others match. -/
theorem code_wellFormed_bracedChoice :
    ∃ p', bracedChoice.code false false .default (.start (.new reservedWords (some "")) []) =
        .ok (.statement
          "// either (\nif (false) \x7b\n  // (\n  window.alert('// ]');\n\x7d\n") p' ∧
      p'.definitions = [(Definitions.procedureKey "f",
        "// \x7b [\n// (\nfunction f() \x7b\n  // (\n  window.alert(')');\n" ++
          "  return 'a\\\n\\'\x7b';\n\x7d")] ∧
      Balanced "// either (\nif (false) \x7b\n  // (\n  window.alert('// ]');\n\x7d\n" ∧
      ∀ name text, (Definitions.procedureKey name, text) ∈ p'.definitions →
        (∃ front, text = front ++ "\x7d") ∧ Closed text ∧ Balanced text := by
  have hlead : ∀ c ∈ "  ".toList, c = ' ' ∨ c = '\t' := by
    intro c hc
    have hspace : c = ' ' ∨ c = ' ' := by simpa using hc
    exact Or.inl (hspace.elim id id)
  have hinert : Inert "  ".toList := by
    intro c hc
    rcases hlead c hc with rfl | rfl <;> rfl
  have ho : Options.default.IsPlain "" "  " := ⟨rfl, rfl, rfl, rfl, hinert, rfl, rfl⟩
  have hnone : (NameTable.new reservedWords (some "")).variablePrefix? = some "" := rfl
  have hp := Pass.Reachable.start hnone []
  have hrun : ∃ p', bracedChoice.code false false .default
      (.start (.new reservedWords (some "")) []) = .ok (.statement
        "// either (\nif (false) \x7b\n  // (\n  window.alert('// ]');\n\x7d\n") p' ∧
      p'.definitions = [(Definitions.procedureKey "f",
        "// \x7b [\n// (\nfunction f() \x7b\n  // (\n  window.alert(')');\n" ++
          "  return 'a\\\n\\'\x7b';\n\x7d")] :=
    ⟨_, by with_unfolding_all rfl, by with_unfolding_all rfl⟩
  obtain ⟨p', hrun, hdefinitions⟩ := hrun
  obtain ⟨⟨text, hcode, -, -, hbalanced⟩, hdefined, -⟩ := Block.code_wellFormed ho hlead
    isPlacedTree_bracedChoice rfl endsProcedures_bracedChoice hp hrun
  obtain rfl := Code.statement.inj hcode
  refine ⟨p', hrun, hdefinitions, hbalanced, fun name text hentry => ?_⟩
  exact (hdefined name text hentry).resolve_left List.not_mem_nil

end BlockScript
