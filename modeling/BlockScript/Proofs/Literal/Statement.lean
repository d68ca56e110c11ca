/-
  BlockScript.Proofs.Literal.Statement

  The code of every block carries the texts of the block: each rule for statements writes the code of
  its slots and chains as it is, and that of a procedure goes to the definition of the procedure. So
  by induction over the tree all blocks deliver.
-/
import BlockScript.Proofs.Literal.Input

namespace BlockScript.Block

open Script
open Gen (Allows Gives)

variable {F : Frame} {o : Options} {b : Block} {I : Pass → Prop} {p₀ : Pass}

/-- The texts that the rule for a kind of statement writes. -/
def StatementTexts (lead : String) (b : Block) (kind : StatementKind) (s : String) : Prop :=
  (∃ slot ∈ (b.site false).statementSlots kind, SlotTexts lead b.values slot s) ∨
    ∃ slot ∈ (b.site false).branchSlots kind, ChainTexts lead b.statements slot s

theorem OwnTexts.statement {lead s : String} {kind : StatementKind} (hkind : b.kind = .statement kind)
    (h : b.OwnTexts lead s) : b.StatementTexts lead kind s := by
  have hsite : (b.site false).kind = .statement kind := hkind
  rw [OwnTexts, Site.valueSlots, Site.chainSlots, hsite] at h
  rcases h with ⟨htext, -⟩ | h
  · rw [hkind] at htext
    cases htext
  · exact h

theorem OwnTexts.value {lead s : String} {kind : ValueKind} (hkind : b.kind = .value kind)
    (h : b.OwnTexts lead s) :
    Written.Texts (SlotTexts lead b.values) (b.site false) kind s := by
  have hsite : (b.site false).kind = .value kind := hkind
  rw [OwnTexts, Site.valueSlots, Site.chainSlots, hsite] at h
  rcases h with ⟨htext, hs⟩ | hs | ⟨slot, hslot, -⟩
  · rw [hkind] at htext
    exact Or.inl ⟨Kind.value.inj htext, hs⟩
  · exact Or.inr hs
  · exact absurd hslot List.not_mem_nil

theorem chainSlots_of_statement {kind : StatementKind} (hkind : b.kind = .statement kind) :
    (b.site false).chainSlots = (b.site false).branchSlots kind := by
  have hsite : (b.site false).kind = .statement kind := hkind
  rw [Site.chainSlots, hsite]

theorem chainSlots_procedure
    (hkind : b.kind = .statement .function ∨ b.kind = .statement .procedure) :
    (b.site false).chainSlots = ["STACK"] := by
  rcases hkind with hkind | hkind
  · exact chainSlots_of_statement hkind
  · exact chainSlots_of_statement hkind

/-- The texts of a procedure are those of its body and of its value. -/
theorem OwnTexts.procedure {lead s : String}
    (hkind : b.kind = .statement .function ∨ b.kind = .statement .procedure)
    (h : b.OwnTexts lead s) :
    ChainTexts lead b.statements "STACK" s ∨ SlotTexts lead b.values "RETURN" s := by
  have htexts : (∃ slot ∈ ["RETURN"], SlotTexts lead b.values slot s) ∨
      ∃ slot ∈ ["STACK"], ChainTexts lead b.statements slot s := by
    rcases hkind with hkind | hkind
    · exact h.statement hkind
    · exact h.statement hkind
  simpa [or_comm] using htexts

/-- The procedures that a block runs are defined, if it is itself, should it register a definition,
    and those in its chains and behind it are. -/
theorem isDefined_of_runs {p : Pass} (hself : b.registers = true → b.IsDefined p)
    (hchains : b.head.enabled = true →
      ∀ slot ∈ (b.site false).chainSlots, ChainDefined b.statements slot p)
    (hnext : b.NextDefined p) : ∀ q, b.Runs q → q.IsDefined p := by
  intro q hq
  cases hq with
  | self h => exact hself h
  | chain henabled hslot hc h => exact hchains henabled _ hslot _ hc q h
  | next hc h => exact hnext _ hc q h

/-! ## Hooks -/

theorem hookText_eq_empty (site : Site) {setting : Json} (h : setting.isTruthy = false) :
    site.hookText setting = .ok "" := by
  unfold Site.hookText
  rw [h]
  rfl

/-- Without hooks there is none at the top of a branch. -/
theorem branchHook_allows {variableLead lead : String} (ho : o.IsPlain variableLead lead)
    (site : Site) :
    Allows o I site.branchHook (· = "") := by
  refine Allows.options.bind ?_
  rintro _ rfl
  rw [hookText_eq_empty site ho.statementSuffix]
  exact Allows.pure rfl

/-- Without a prefix and a suffix statement code stays as it is. -/
theorem withHooks_allows_of (hbefore : o.statementPrefix.isTruthy = false)
    (hbehind : o.statementSuffix.isTruthy = false) (site : Site) (code : String) :
    Allows o I (site.withHooks code) (· = code) := by
  rw [Site.withHooks]
  split
  · exact Allows.pure rfl
  · refine Allows.options.bind ?_
    rintro _ rfl
    rw [hookText_eq_empty site hbefore, hookText_eq_empty site hbehind]
    have hsame : "" ++ code ++ "" = code := by
      rw [String.empty_append, String.append_empty]
    exact Allows.pure hsame

theorem withHooks_allows {variableLead lead : String} (ho : o.IsPlain variableLead lead) (site : Site)
    (code : String) : Allows o I (site.withHooks code) (· = code) :=
  withHooks_allows_of ho.statementPrefix ho.statementSuffix site code

/-- Without a hook there is no indented one. -/
theorem indentedHook_allows {hook : String} (h : hook = "") :
    Allows o I (Site.indentedHook hook) (· = "") := by
  rw [Site.indentedHook, if_pos h]
  exact Allows.pure rfl

/-- The indent ahead of a line that a rule writes whole is closed. -/
theorem closed_indentShown (ho : o.IsPlain F.variableLead F.lead) : Closed o.indentShown := by
  rw [Options.indentShown, ho.indent]
  exact (modeAfter_inert ho.inert).1

/-! ## Parts of the rules -/

/-- The chains of a conditional are those of its branches, and of the last one if it has a slot. -/
theorem mem_branchSlots_conditional {slot : String}
    (h : slot ∈ (b.site false).branchSlots .conditional) :
    (∃ i ∈ List.range (b.site false).branchCount, slot = "DO" ++ toString i) ∨
      (b.site false).hasSlot "ELSE" = true ∧ slot = "ELSE" := by
  rw [Site.branchSlots, List.mem_append] at h
  rcases h with h | h
  · obtain ⟨i, hi, rfl⟩ := List.mem_map.mp h
    exact Or.inl ⟨i, hi, rfl⟩
  · split at h
    · rename_i helse
      exact Or.inr ⟨helse, List.mem_singleton.mp h⟩
    · exact absurd h List.not_mem_nil

/-- The last branch of a conditional, if it has one. -/
def lastBranch (site : Site) (options : Options) : Gen String :=
  if site.hasSlot "ELSE" || options.statementSuffix.isTruthy then do
    let body ← site.branch "ELSE"
    return " else \x7b\n" ++ body ++ "\x7d"
  else return ""

theorem conditional_eq (site : Site) :
    site.conditional = (do
      let options ← Gen.options
      let hook ← Gen.lift (site.hookText options.statementPrefix)
      let branches ← (List.range site.branchCount).mapM site.conditionalBranch
      let last ← lastBranch site options
      return hook ++ Text.join " else " branches ++ last ++ "\n") := by
  refine congrArg (bind Gen.options) (funext fun options => congrArg (bind _) (funext fun hook =>
    congrArg (bind _) (funext fun branches => ?_)))
  rw [lastBranch]
  split <;> simp only [bind_assoc, pure_bind]

theorem parameterName_allows (ho : o.IsPlain F.variableLead F.lead) (parameter : Json) :
    Allows o (Pass.Since F p₀) (Site.parameterName parameter) Closed := by
  cases parameter with
  | str name => exact Gen.variableName_since ho.closed name
  | _ => exact Allows.throw _

/-- The code of a procedure carries the texts of its body and of its value. -/
theorem carries_procedure {L L' : String → Prop} {name parameters indent body value : String}
    (hname : Closed name) (hparameters : Closed parameters) (hindent : Closed indent)
    (hbody : Script.Carries L body) (hvalue : Script.Carries L' value) :
    Script.Carries (fun s => L s ∨ L' s)
      ("function " ++ name ++ "(" ++ parameters ++ ") \x7b\n" ++ "" ++ "" ++ body ++ "" ++
        (if value = "" then "" else indent ++ "return " ++ value ++ ";\n") ++ "\x7d") := by
  have hresult : Script.Carries L'
      (if value = "" then "" else indent ++ "return " ++ value ++ ";\n") := by
    split
    · rename_i hempty
      rwa [hempty] at hvalue
    · have hreturn : Closed (indent ++ "return ") := hindent.append (by decide)
      exact (Script.Carries.behind hreturn hvalue).ahead (by decide)
  have hfunction : Closed ("function " ++ name) := Closed.append (by decide) hname
  have hopen : Closed ("function " ++ name ++ "(") := hfunction.append (by decide)
  have hclose : Closed ("function " ++ name ++ "(" ++ parameters ++ ") \x7b\n") :=
    (hopen.append hparameters).append (by decide)
  have hhead := (hclose.append closed_empty).append closed_empty
  exact (((Script.Carries.behind hhead hbody).ahead closed_empty).append hresult).ahead (by decide)

/-- A statement without chains gives its texts, if its rule carries those of its value slots. -/
theorem statement_gives_of_allows {kind : StatementKind} {m : Gen String}
    (hslots : (b.site false).branchSlots kind = [])
    (h : ∀ p₀, Allows o (Pass.Since F p₀) m (Script.Carries fun s =>
      ∃ slot ∈ (b.site false).statementSlots kind, SlotTexts F.lead b.values slot s)) (p : Pass) :
    Gives F o m p fun r text => Script.Carries (b.StatementTexts F.lead kind) text ∧
      ∀ slot ∈ (b.site false).branchSlots kind, ChainDefined b.statements slot r := by
  refine (Gives.of_allows (h p)).mono fun r text htext => ⟨htext.mono ?_, ?_⟩
  · rintro s (hs | ⟨slot, hslot, -⟩)
    · exact hs
    · rw [hslots] at hslot
      exact absurd hslot List.not_mem_nil
  · intro slot hslot
    rw [hslots] at hslot
    exact absurd hslot List.not_mem_nil

/-- What is to be shown of the result of the rule of a block: code has the texts that the rule
    writes, and a block without code has registered its definition. -/
def RuleDelivers (F : Frame) (b : Block) (r : Pass) : Option Code → Prop
  | some code => b.registers = false ∧ code.Carries (b.OwnTexts F.lead) ∧
      ∀ slot ∈ (b.site false).chainSlots, ChainDefined b.statements slot r
  | none => b.registers = true ∧ ∀ q, b.Runs q → q.IsDefined r

/-- The rule for a kind of statement that registers nothing delivers. -/
theorem map_some_gives {kind : StatementKind} (hkind : b.kind = .statement kind)
    (hcode : b.registers = false) {m : Gen String} {p : Pass}
    (h : Gives F o m p fun r text => Script.Carries (b.StatementTexts F.lead kind) text ∧
      ∀ slot ∈ (b.site false).branchSlots kind, ChainDefined b.statements slot r) :
    Gives F o (some <$> m) p fun r result => b.RuleDelivers F r (result.map .statement) := by
  rw [map_eq_pure_bind]
  refine h.bind fun text p' _ _ => Gives.pure fun r _ htext => ?_
  refine ⟨hcode, htext.1.mono fun s hs => hs.statement hkind, ?_⟩
  rw [chainSlots_of_statement hkind]
  exact htext.2

/-! ## Statements that read values only -/

section
variable (ho : o.IsPlain F.variableLead F.lead) (hb : ∀ c ∈ b.children, c.Delivers F o)
  (attached : Bool)
include ho hb

/-- What a value slot gives carries the texts of the slot. -/
theorem valueOr_allows (name : String) (outer : Order) {default : String}
    (hdefault : Closed default) :
    Allows o (Pass.Since F p₀) ((b.site attached).valueOr name outer default)
      (Script.Carries (SlotTexts F.lead b.values name)) := by
  have hvalue := (supplied_sound ho hb attached p₀).valueOr name outer default
  exact hvalue.mono fun text htext => (supplied_supplies F b).filled hdefault htext

theorem valueOr_gives (name : String) (outer : Order) {default : String}
    (hdefault : Closed default) (p : Pass) :
    Gives F o ((b.site attached).valueOr name outer default) p
      fun _ => Script.Carries (SlotTexts F.lead b.values name) :=
  Gives.of_allows (valueOr_allows ho hb attached name outer hdefault)

theorem assign_allows : Allows o (Pass.Since F p₀) (b.site attached).assign
    (Script.Carries (SlotTexts F.lead b.values "VALUE")) := by
  refine (valueOr_allows ho hb attached "VALUE" _ (by decide)).bind fun value hvalue => ?_
  refine ((supplied_sound ho hb attached p₀).variableName _).bind fun name hname => ?_
  have hname' : Closed (name ++ " = ") := Closed.append hname (by decide)
  exact Allows.pure ((Script.Carries.behind hname' hvalue).ahead (by decide))

theorem append_allows : Allows o (Pass.Since F p₀) (b.site attached).append
    (Script.Carries (SlotTexts F.lead b.values "TEXT")) := by
  refine ((supplied_sound ho hb attached p₀).variableName _).bind fun name hname => ?_
  refine (valueOr_allows ho hb attached "TEXT" _ (by decide)).bind fun value hvalue => ?_
  have hname' : Closed (name ++ " += ") := Closed.append hname (by decide)
  exact Allows.pure ((Script.Carries.behind hname' hvalue.forceString).ahead (by decide))

theorem print_allows : Allows o (Pass.Since F p₀) (b.site attached).print
    (Script.Carries (SlotTexts F.lead b.values "TEXT")) := by
  refine (valueOr_allows ho hb attached "TEXT" _ (by decide)).bind fun value hvalue => ?_
  exact Allows.pure ((Script.Carries.behind (by decide) hvalue).ahead (by decide))

theorem callStatement_allows : Allows o (Pass.Since F p₀) (b.site attached).callStatement
    (Script.Carries fun s =>
      ∃ slot ∈ (b.site false).argumentSlots, SlotTexts F.lead b.values slot s) := by
  refine (Site.call_writes (supplied_sound ho hb attached p₀)).bind fun e he => ?_
  have hcarries := (he.carries (supplied_supplies F b)).ahead (t := ";\n") (by decide)
  exact Allows.pure (hcarries.mono fun s hs => Or.inr hs)

theorem returnIf_allows : Allows o (Pass.Since F p₀) (b.site attached).returnIf
    (Script.Carries fun s => ∃ slot ∈ (b.site false).statementSlots .returnIf,
      SlotTexts F.lead b.values slot s) := by
  refine (valueOr_allows ho hb attached "CONDITION" _ (by decide)).bind fun condition hcondition => ?_
  refine (branchHook_allows ho _).bind ?_
  rintro _ rfl
  refine Allows.options.bind ?_
  rintro _ rfl
  have hlead := closed_indentShown ho
  have hcondition' := (Script.Carries.behind (s := "if (") (by decide) hcondition).ahead
    (t := ") \x7b\n") (by decide)
  have hhead := (hcondition'.ahead closed_empty).ahead hlead
  have hslots : (b.site false).statementSlots .returnIf =
      if (b.site false).returnsValue then ["CONDITION", "VALUE"] else ["CONDITION"] := rfl
  rw [hslots]
  cases hreturns : (b.site false).returnsValue with
  | true =>
    have hvalue : (((b.site attached).head.mutation.get? "value").getD (.bool true)).isTruthy =
        true := hreturns
    simp only [hvalue, if_true]
    refine (valueOr_allows ho hb attached "VALUE" _ (by decide)).bind fun value hvalue => ?_
    have hresult := (Script.Carries.behind (s := "return ") (by decide) hvalue).ahead (t := ";\n")
      (by decide)
    refine Allows.pure (((hhead.append hresult).ahead (by decide)).mono fun s hs => ?_)
    simpa using hs
  | false =>
    have hvalue : (((b.site attached).head.mutation.get? "value").getD (.bool true)).isTruthy =
        false := hreturns
    simp only [hvalue]
    refine Allows.pure (((hhead.ahead (t := "return;\n") (by decide)).ahead (by decide)).mono
      fun s hs => ?_)
    simpa using hs

/-! ## Conditionals -/

/-- A branch gives the texts of its chain. -/
theorem branch_gives (name : String) (p : Pass) :
    Gives F o ((b.site attached).branch name) p fun r text =>
      Script.Carries (ChainTexts F.lead b.statements name) text ∧
        ChainDefined b.statements name r := by
  refine (Gives.of_allows (branchHook_allows ho _)).bind fun hook p' _ hhook => ?_
  obtain rfl := hhook p' (.refl p')
  refine (chain_gives ho hb attached name p').bind fun text p'' _ _ => ?_
  refine Gives.pure fun r _ htext _ => ?_
  rwa [String.empty_append]

/-- A condition with its branch gives the texts of both. -/
theorem conditionalBranch_gives (i : Nat) (p : Pass) :
    Gives F o ((b.site attached).conditionalBranch i) p fun r text =>
      ChainDefined b.statements ("DO" ++ toString i) r ∧
        Script.Carries (fun s => SlotTexts F.lead b.values ("IF" ++ toString i) s ∨
          ChainTexts F.lead b.statements ("DO" ++ toString i) s) text := by
  refine (valueOr_gives ho hb attached ("IF" ++ toString i) .none (by decide) p).bind
    fun condition p' _ _ => ?_
  refine (branch_gives ho hb attached _ p').bind fun body p'' _ _ => ?_
  refine Gives.pure fun r _ hbody hcondition => ⟨hbody.2, ?_⟩
  have hhead := (Script.Carries.behind (s := "if (") (by decide) hcondition).ahead
    (t := ") \x7b\n") (by decide)
  exact (hhead.append hbody.1).ahead (by decide)

/-- The last branch gives the texts of its chain, if the conditional has one. -/
theorem lastBranch_gives (p : Pass) :
    Gives F o (lastBranch (b.site attached) o) p fun r text =>
      Script.Carries (fun s => (b.site false).hasSlot "ELSE" = true ∧
        ChainTexts F.lead b.statements "ELSE" s) text ∧
      ((b.site false).hasSlot "ELSE" = true → ChainDefined b.statements "ELSE" r) := by
  rw [lastBranch]
  have hsame : (b.site attached).hasSlot "ELSE" = (b.site false).hasSlot "ELSE" := rfl
  rw [ho.statementSuffix, Bool.or_false, hsame]
  cases helse : (b.site false).hasSlot "ELSE" with
  | true =>
    rw [if_pos rfl]
    refine (branch_gives ho hb attached "ELSE" p).bind fun body p' _ _ => ?_
    refine Gives.pure fun r _ hbody => ⟨?_, fun _ => hbody.2⟩
    have hbody' := Script.Carries.behind (s := " else \x7b\n") (by decide) hbody.1
    exact (hbody'.ahead (by decide)).mono fun s hs => hs.2
  | false =>
    have hempty : Closed "" := rfl
    refine Gives.pure fun r _ => ⟨hempty.carries.mono fun s hs => ?_, fun h => ?_⟩
    · exact absurd hs.1 Bool.false_ne_true
    · exact absurd h Bool.false_ne_true

/-- A conditional gives the texts of its conditions and of its branches. -/
theorem conditional_gives (p : Pass) :
    Gives F o (b.site attached).conditional p fun r text =>
      Script.Carries (b.StatementTexts F.lead .conditional) text ∧
        ∀ slot ∈ (b.site false).branchSlots .conditional, ChainDefined b.statements slot r := by
  rw [conditional_eq]
  refine Gives.options.bind fun options p₁ _ hoptions => ?_
  obtain rfl := hoptions p₁ (.refl p₁)
  refine Gives.lifted.bind fun hook p₂ _ hhook => ?_
  obtain rfl : "" = hook :=
    Except.ok.inj ((hookText_eq_empty _ ho.statementPrefix).symm.trans (hhook p₂ (.refl p₂)))
  refine (Gives.mapM fun i _ p => conditionalBranch_gives ho hb attached i p).bind
    fun branches p₃ _ _ => ?_
  refine (lastBranch_gives ho hb attached p₃).bind fun last p₄ _ _ => ?_
  refine Gives.pure fun r _ hlast hbranches _ _ => ?_
  obtain ⟨hdefined, hcarries⟩ := (List.forall₂_and_left _ _).mp hbranches
  obtain ⟨hclosed, hmem⟩ := carries_forall₂ hcarries
  have hseparator : Closed " else " := by decide
  have hjoin := Script.Carries.behind closed_empty (carries_join hseparator hclosed)
  refine ⟨((hjoin.append hlast.1).ahead (by decide)).mono ?_, ?_⟩
  · rintro s (⟨slot, hslot, hs⟩ | ⟨slot, hslot, hs⟩)
    · obtain ⟨i, hi, rfl⟩ := List.mem_map.mp hslot
      exact Or.inl (hmem i hi s (Or.inl hs))
    · rcases mem_branchSlots_conditional hslot with ⟨i, hi, rfl⟩ | ⟨helse, rfl⟩
      · exact Or.inl (hmem i hi s (Or.inr hs))
      · exact Or.inr ⟨helse, hs⟩
  · intro slot hslot
    rcases mem_branchSlots_conditional hslot with ⟨i, hi, rfl⟩ | ⟨helse, rfl⟩
    · exact hdefined i hi
    · exact hlast.2 helse

/-! ## Procedures -/

/-- A procedure has a definition from then on, with its texts. -/
theorem defineProcedure_gives (hoccurs : F.occurs b)
    (hkind : b.kind = .statement .function ∨ b.kind = .statement .procedure) (p : Pass) :
    Gives F o (b.site attached).defineProcedure p fun r _ => ∀ q, b.Runs q → q.IsDefined r := by
  refine Gives.options.bind fun options p₁ _ hoptions => ?_
  obtain rfl := hoptions p₁ (.refl p₁)
  refine (Gen.procedureName_gives _).bind fun name p₂ _ hname => ?_
  refine Gives.lifted.bind fun lead p₃ h₃ hlead => ?_
  obtain rfl : "" = lead :=
    Except.ok.inj ((hookText_eq_empty _ ho.statementPrefix).symm.trans (hlead p₃ (.refl p₃)))
  refine Gives.lifted.bind fun tail p₄ h₄ htail => ?_
  obtain rfl : "" = tail :=
    Except.ok.inj ((hookText_eq_empty _ ho.statementSuffix).symm.trans (htail p₄ (.refl p₄)))
  refine (Gives.of_allows (indentedHook_allows rfl)).bind fun hooks p₅ h₅ hhooks => ?_
  obtain rfl := hhooks p₅ (.refl p₅)
  refine Gives.lifted.bind fun trap p₆ h₆ htrap => ?_
  obtain rfl : "" = trap :=
    Except.ok.inj ((hookText_eq_empty _ ho.loopTrap).symm.trans (htrap p₆ (.refl p₆)))
  refine (Gives.of_allows (indentedHook_allows rfl)).bind fun trap p₇ h₇ htrap => ?_
  obtain rfl := htrap p₇ (.refl p₇)
  refine (chain_gives ho hb attached "STACK" p₇).bind fun body p₈ h₈ hbody => ?_
  refine (Gives.of_allows ((supplied_sound ho hb attached p₈).value "RETURN" .none)).bind
    fun value p₉ h₉ hvalue => ?_
  have hagain : (if (decide (body ≠ "") && decide (value ≠ "")) = true then "" else "") = "" := by
    split <;> rfl
  simp only [hagain]
  refine Gives.lifted.bind fun names p₁₀ h₁₀ _ => ?_
  refine (Gives.of_allows (Allows.mapM fun parameter _ => parameterName_allows ho parameter)).bind
    fun parameters p₁₁ h₁₁ hparameters => ?_
  have hclosed := (carries_forall₂ ((hparameters p₁₁ (.refl p₁₁)).imp fun _ _ h => h.carries)).1
  have hseparator : Closed ", " := by decide
  have hcode := carries_procedure (hname p₂ (.refl p₂)).1 (closed_join hseparator hclosed)
    (closed_indentShown ho)
    (hbody p₈ (.refl p₈)).1 (hvalue p₉ (.refl p₉))
  refine (complete_gives hb attached hcode p₁₁).bind fun text p₁₂ h₁₂ htext => ?_
  have hgrows : p₂.Grows p₁₂ := h₃.trans (h₄.trans (h₅.trans (h₆.trans (h₇.trans (h₈.trans
    (h₉.trans (h₁₀.trans (h₁₁.trans h₁₂))))))))
  have htexts : Script.Carries (b.Texts F.lead) text := by
    refine (htext p₁₂ (.refl p₁₂)).1.mono fun s hs => ?_
    rcases hs.cases with ⟨-, hown⟩ | hnext
    · exact Or.inl (hown.procedure hkind)
    · exact Or.inr hnext
  refine (Gen.define_gives hoccurs (hname p₁₂ hgrows).2 htexts).mono ?_
  intro r _ hdefined htext _ _ _ hbody _ _ _ _ _ _ _
  refine isDefined_of_runs (fun _ => hdefined) (fun _ slot hslot => ?_) htext.2
  rw [chainSlots_procedure hkind] at hslot
  rw [List.mem_singleton.mp hslot]
  exact hbody.2

/-! ## All kinds -/

theorem statement_gives {kind : StatementKind} (hkind : b.kind = .statement kind)
    (henabled : b.head.enabled = true) (hoccurs : b.registers = true → F.occurs b) (p : Pass) :
    Gives F o ((b.site attached).statement kind) p
      fun r result => b.RuleDelivers F r (result.map .statement) := by
  have hregisters : b.registers =
      (kind = .function || kind = .procedure) := by
    rw [registers, henabled, hkind]
    cases kind <;> rfl
  have hprocedure : b.kind = .statement .function ∨ b.kind = .statement .procedure →
      Gives F o (do (b.site attached).defineProcedure; pure none : Gen (Option String)) p
        fun r result => b.RuleDelivers F r (result.map .statement) := by
    intro hkind
    have hcode : b.registers = true := by
      rw [registers, henabled]
      rcases hkind with hkind | hkind <;> rw [hkind] <;> rfl
    refine (defineProcedure_gives ho hb attached (hoccurs hcode) hkind p).bind fun _ p' _ _ => ?_
    exact Gives.pure fun r _ hdefined => ⟨hcode, hdefined⟩
  have hslot : ∀ {slot : String} {m : Gen String},
      (∀ p₀, Allows o (Pass.Since F p₀) m (Script.Carries (SlotTexts F.lead b.values slot))) →
      (b.site false).branchSlots kind = [] → (b.site false).statementSlots kind = [slot] →
      b.registers = false →
      Gives F o (some <$> m) p fun r result => b.RuleDelivers F r (result.map .statement) := by
    intro slot m hm hchains hslots hcode
    refine map_some_gives hkind hcode (statement_gives_of_allows hchains (fun p₀ => ?_) p)
    refine (hm p₀).mono fun text htext => htext.mono fun s hs => ?_
    rw [hslots] at hs
    obtain ⟨slot', hslot', hs⟩ := hs
    rwa [List.mem_singleton.mp hslot'] at hs
  cases kind with
  | conditional =>
    exact map_some_gives hkind hregisters (conditional_gives ho hb attached p)
  | conditionalElse =>
    exact map_some_gives hkind hregisters (conditional_gives ho hb attached p)
  | function => exact hprocedure (Or.inl hkind)
  | procedure => exact hprocedure (Or.inr hkind)
  | call =>
    exact map_some_gives hkind hregisters
      (statement_gives_of_allows rfl (fun p₀ => callStatement_allows ho hb attached) p)
  | returnIf =>
    exact map_some_gives hkind hregisters
      (statement_gives_of_allows rfl (fun p₀ => returnIf_allows ho hb attached) p)
  | append => exact hslot (fun p₀ => append_allows ho hb attached) rfl rfl hregisters
  | print => exact hslot (fun p₀ => print_allows ho hb attached) rfl rfl hregisters
  | assign => exact hslot (fun p₀ => assign_allows ho hb attached) rfl rfl hregisters
  | assignDynamic => exact hslot (fun p₀ => assign_allows ho hb attached) rfl rfl hregisters

/-- The rule of every block delivers. -/
theorem rule_gives (henabled : b.head.enabled = true) (hoccurs : b.registers = true → F.occurs b)
    (p : Pass) : Gives F o (b.site attached).rule p (b.RuleDelivers F) := by
  rw [Site.rule]
  cases hkind : b.kind with
  | value kind =>
    have hsite : (b.site attached).kind = .value kind := hkind
    have hchains : (b.site false).chainSlots = [] := by
      rw [Site.chainSlots, show (b.site false).kind = .value kind from hkind]
    have hcode : b.registers = false := by
      rw [registers, henabled, hkind]
      rfl
    rw [hsite]
    refine (Gives.of_allows
      (Site.expression_writes (supplied_sound ho hb attached p) kind)).bind fun e p' _ _ => ?_
    refine Gives.pure fun r _ he => ⟨hcode, ?_, ?_⟩
    · exact (he.carries (supplied_supplies F b)).mono fun s hs => hs.value hkind
    · rw [hchains]
      exact fun slot hslot => absurd hslot List.not_mem_nil
  | statement kind =>
    have hsite : (b.site attached).kind = .statement kind := hkind
    rw [hsite]
    refine (statement_gives ho hb attached hkind henabled hoccurs p).bind fun result p' _ _ => ?_
    exact Gives.pure fun r _ hresult => hresult

end

/-! ## Blocks -/

/-- What a block has in its code, if its rule has written its texts and the block behind it too. -/
theorem contributes_cases {lead s : String} (h : b.Contributes lead s) :
    b.OwnTexts lead s ∨ b.NextTexts lead s :=
  h.2.cases.imp_left And.right

/-- A block that is passed over delivers what follows. -/
theorem passedOver_gives (hb : ∀ c ∈ b.children, c.Delivers F o) (hdisabled : b.head.enabled = false)
    (attached : Bool) (p : Pass) :
    Gives F o ((b.site attached).passedOver false) p fun r code =>
      code.Carries (b.Contributes F.lead) ∧ ∀ q, b.Runs q → q.IsDefined r := by
  have hnext : ∀ s, b.Contributes F.lead s → b.NextTexts F.lead s := by
    intro s hs
    rcases hs.2.cases with ⟨henabled, -⟩ | hnext
    · rw [hdisabled] at henabled
      exact absurd henabled Bool.false_ne_true
    · exact hnext
  have hself : b.registers = false := by
    rw [registers, hdisabled, Bool.false_and]
  refine (Gives.of_allows (Gen.record_since _)).bind fun _ p' _ _ => ?_
  refine (nextCode_gives hb attached p').mono fun r code hcode _ => ⟨?_, ?_⟩
  · cases code with
    | statement text => exact hcode.1.mono hnext
    | expression text order => exact hcode.1.mono hnext
  · refine isDefined_of_runs (fun h => ?_) (fun h => ?_) hcode.2
    · rw [hself] at h
      exact absurd h Bool.false_ne_true
    · rw [hdisabled] at h
      exact absurd h Bool.false_ne_true

/-- What the rule of a block delivers, its whole code does. -/
theorem finished_gives (ho : o.IsPlain F.variableLead F.lead)
    (hb : ∀ c ∈ b.children, c.Delivers F o) (attached : Bool) {result : Option Code} {p₀ : Pass}
    (hresult : b.RuleDelivers F p₀ result) (p : Pass) :
    Gives F o ((b.site attached).finished false result) p fun r code =>
      b.RuleDelivers F r result →
        code.Carries (b.Contributes F.lead) ∧ ∀ q, b.Runs q → q.IsDefined r := by
  have hcomplete : ∀ {r : Pass} {text whole : String}, b.RuleDelivers F r (some (.statement text)) →
      Script.Carries (fun s => b.OwnTexts F.lead s ∨ b.NextTexts F.lead s) whole →
      b.NextDefined r →
      Script.Carries (b.Contributes F.lead) whole ∧ ∀ q, b.Runs q → q.IsDefined r := by
    rintro r text whole ⟨hcode, -, hchains⟩ hwhole hnext
    refine ⟨hwhole.mono fun s hs => contributes_cases hs, ?_⟩
    refine isDefined_of_runs (fun h => ?_) (fun _ => hchains) hnext
    rw [hcode] at h
    exact absurd h Bool.false_ne_true
  cases result with
  | none =>
    refine Gives.pure fun r _ hrule => ⟨?_, hrule.2⟩
    refine closed_empty.carries.mono fun s hs => ?_
    have hcode := hs.1
    rw [hrule.1] at hcode
    cases hcode
  | some code =>
    cases code with
    | expression text order =>
      rw [Site.finished]
      split
      · exact Gives.throw _
      · refine (complete_gives hb attached hresult.2.1 p).bind fun whole p' _ _ => ?_
        exact Gives.pure fun r _ hwhole hrule => hcomplete hrule hwhole.1 hwhole.2
    | statement text =>
      refine (Gives.of_allows (withHooks_allows ho _ text)).bind fun text' p' _ htext => ?_
      obtain rfl := htext p' (.refl p')
      refine (complete_gives hb attached hresult.2.1 p').bind fun whole p'' _ _ => ?_
      exact Gives.pure fun r _ hwhole _ hrule => hcomplete hrule hwhole.1 hwhole.2

/-- A block delivers if the blocks in it do. -/
theorem delivers_of_children (ho : o.IsPlain F.variableLead F.lead)
    (hb : ∀ c ∈ b.children, c.Delivers F o) (hoccurs : b.registers = true → F.occurs b) :
    b.Delivers F o := by
  intro attached p
  rw [code_eq_site_code]
  refine (Gives.of_allows Site.requirePass_allows).bind fun _ p₁ _ _ => ?_
  cases henabled : (b.site attached).head.enabled with
  | false =>
    refine Gives.mono (passedOver_gives hb henabled attached p₁) fun r code hcode _ => hcode
  | true =>
    refine (rule_gives ho hb attached henabled hoccurs p₁).bind fun result p₂ _ hresult => ?_
    exact (finished_gives ho hb attached (hresult p₂ (.refl p₂)) p₂).mono fun r code h hrule _ =>
      h hrule

/-- Every block delivers, if all procedures in it are among those that occur. -/
theorem delivers (ho : o.IsPlain F.variableLead F.lead) (b : Block)
    (hoccurs : ∀ q, Within q b → q.registers = true → F.occurs q) : b.Delivers F o := by
  induction b using forall_of_children with
  | h b ih =>
    refine delivers_of_children ho (fun c hc => ih c hc fun q hq => hoccurs q (.child hc hq)) ?_
    exact hoccurs b .self

end BlockScript.Block
