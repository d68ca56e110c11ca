/-
  BlockScript.Proofs.Variable.Program

  The ids of variables do not stand in a program. With other ids it is the same program, as long as
  what is asked for as an id without being one means the same: the parameters of procedures are asked
  for so, by their names.
-/
import Mathlib.Logic.Equiv.Basic
import BlockScript.Proofs.Name.Emitted
import BlockScript.Proofs.Variable.Renaming

namespace BlockScript

open Gen (Congruence Lockstep)

/-! ## What blocks ask for -/

/-- The names of parameters that are texts. -/
def Head.parameterTexts (head : Head) : List String :=
  match head.parameters with
  | .ok parameters => parameters.filterMap fun
    | .str name => some name
    | _ => none
  | .error _ => []

namespace Block

/-- What the rule of a block asks for as an id though no field holds it: the parameters of a
    procedure, and what stands for a field that is missing. -/
def looseNames (b : Block) : List String :=
  (if b.kind.definesProcedure then b.head.parameterTexts else []) ++
    if b.kind.namesVariable && (b.head.fields.get? "VAR").isNone then ["None"] else []

/-- What the rule of a block asks for means the same with other ids: its field holds an id, and the
    names without a field mean the same. -/
structure IsRenamable (names : VariableNames) (ρ : String → String) (b : Block) : Prop where
  field : b.kind.namesVariable = true → ∀ value, b.head.fields.get? "VAR" = some value →
    value.shown ∈ names.ids
  loose : ∀ name ∈ b.looseNames, (names.renamed ρ).lookup name = names.lookup name

end Block

/-- Other ids for the variables of a workspace: no two variables come to one id, all of them have
    names, and what its blocks ask for means the same. -/
structure Workspace.IsRenamable (w : Workspace) (ρ : String → String) : Prop where
  injective : ∀ i ∈ w.variableNames.ids, ∀ j ∈ w.variableNames.ids, ρ i = ρ j → i = j
  named : ∀ entry ∈ w.variableNames, entry.2 ≠ ""
  blocks : ∀ b ∈ w.blocks, ∀ c : Block, c.Within b → c.IsRenamable w.variableNames ρ

namespace Pass.Renames

variable {names : VariableNames} {ρ : String → String} {p q : Pass} {name : String}

/-- What is found alike in both tables of variables means the same. -/
theorem meant_of_lookup {other : VariableNames} (h : p.Renames names other q)
    (hname : other.lookup name = names.lookup name) (category : Category) :
    q.names.meant name category = p.names.meant name category := by
  have hother : q.names.variableNames = other := by rw [h.eq]; rfl
  rw [NameTable.meant, NameTable.meant, h.variableNames, hother, hname]

/-- An id means the same as the other id in its place: the name of the variable. -/
theorem meant_of_id (h : p.Renames names (names.renamed ρ) q)
    (hρ : ∀ i ∈ names.ids, ∀ j ∈ names.ids, ρ i = ρ j → i = j)
    (hnamed : ∀ entry ∈ names, entry.2 ≠ "") (hid : name ∈ names.ids) :
    q.names.meant (ρ name) .userVariable = p.names.meant name .userVariable := by
  have hother : q.names.variableNames = names.renamed ρ := by rw [h.eq]; rfl
  have hlookup := VariableNames.lookup_renamed hρ hid
  obtain ⟨entry, hentry, rfl⟩ := List.mem_map.mp hid
  cases hfound : names.lookup entry.1 with
  | none =>
    have hmissing := List.lookup_eq_none_iff.mp hfound entry hentry
    simp at hmissing
  | some userName =>
    have hne : userName ≠ "" := hnamed _ (NameTable.mem_of_lookup_eq_some hfound)
    rw [NameTable.meant, NameTable.meant, h.variableNames, hother, hlookup, hfound]
    simp [hne]

end Pass.Renames

namespace Gen

variable {o : Options} {names other : VariableNames} {ρ : String → String}

theorem renames_congruence (o : Options) (names other : VariableNames) :
    Congruence (fun a b => a = o ∧ b = o)
      fun m m' => Lockstep (Pass.Renames names other) o m m' Eq :=
  Abreast.congruence Pass.isAligned_renames rfl

/-- The name of a variable, asked for by what means the same. -/
theorem variableName_renames {name name' : String}
    (h : ∀ p q : Pass, p.Renames names other q →
      q.names.meant name' .userVariable = p.names.meant name .userVariable) :
    Lockstep (Pass.Renames names other) o (variableName name) (variableName name') Eq :=
  .onPass_eq Pass.isAligned_renames fun p q hpass => hpass.name (h p q hpass)

end Gen

namespace Block

variable {o : Options} {names : VariableNames} {ρ : String → String} {b : Block}

/-- The name of the variable of a block is asked for by what means the same. -/
theorem variableName_renamed {attached : Bool}
    (hρ : ∀ i ∈ names.ids, ∀ j ∈ names.ids, ρ i = ρ j → i = j)
    (hnamed : ∀ entry ∈ names, entry.2 ≠ "") (h : b.IsRenamable names ρ)
    (hkind : b.kind.namesVariable = true) :
    Lockstep (Pass.Renames names (names.renamed ρ)) o (b.site attached).variableName
      ((b.renamed ρ).site attached).variableName Eq := by
  have hfield : ((b.renamed ρ).site attached).head.fields.get? "VAR" =
      (b.head.fields.get? "VAR").map fun value => .str (ρ value.shown) := by
    have hhead : ((b.renamed ρ).site attached).head = b.head.renamed ρ := b.head_renamed ρ
    rw [hhead]
    exact b.head.fields.get?_renamed_variable ρ
  apply Gen.variableName_renames
  intro p q hpass
  rw [Head.field, Head.field, Table.get, Table.get, hfield]
  change _ = p.names.meant ((b.head.fields.get? "VAR").getD .null).shown _
  cases hvalue : b.head.fields.get? "VAR" with
  | some value => exact hpass.meant_of_id hρ hnamed (h.field hkind value hvalue)
  | none =>
    apply hpass.meant_of_lookup (h.loose "None" _)
    rw [looseNames, hkind, hvalue]
    exact List.mem_append_right _ List.mem_cons_self

/-- The names of the parameters of a procedure are asked for by what means the same. -/
theorem parameterName_renamed (h : b.IsRenamable names ρ) (hkind : b.kind.definesProcedure = true)
    {parameters : List Json} (hparameters : b.head.parameters = .ok parameters) {parameter : Json}
    (hmem : parameter ∈ parameters) :
    Lockstep (Pass.Renames names (names.renamed ρ)) o (Site.parameterName parameter)
      (Site.parameterName parameter) Eq := by
  cases parameter with
  | str name =>
    apply Gen.variableName_renames
    intro p q hpass
    apply hpass.meant_of_lookup (h.loose name _)
    rw [looseNames, hkind, Head.parameterTexts, hparameters]
    exact List.mem_append_left _ (List.mem_filterMap.mpr ⟨_, hmem, rfl⟩)
  | _ => exact .throw _

end Block

/-! ## Programs -/

namespace Workspace

variable {w : Workspace} {ρ : String → String}

/-- The line of a block that nothing holds is the same with other ids. -/
theorem IsRenamable.topLevelLine (h : w.IsRenamable ρ) {o : Options} {b : Block}
    (hb : b ∈ w.blocks) :
    Lockstep (Pass.Renames w.variableNames (w.variableNames.renamed ρ)) o b.topLevelLine
      (b.renamed ρ).topLevelLine Eq := by
  have hcongruence := Gen.renames_congruence o w.variableNames (w.variableNames.renamed ρ)
  rw [Block.renamed_eq_mapHeads]
  apply Block.topLevelLine_mapHeads hcongruence (fun _ _ ho => ho.1.trans ho.2.symm)
    (Head.keepsRules_renamed ρ)
  case hrecord => exact fun _ _ _ _ => hcongruence.record _
  case hhooks =>
    intro s t ht
    apply Site.SameHooks.of_id
    rw [Site.id, Site.id, ht]
    rfl
  case hprocedureName => exact fun source => Gen.Abreast.procedureName Pass.isAligned_renames source
  case hdefine =>
    exact fun name text => .onPass_eq Pass.isAligned_renames fun p q hpass =>
      ⟨rfl, hpass.define name text⟩
  case hvariable =>
    intro c hc hkind attached
    rw [← Block.renamed_eq_mapHeads]
    exact Block.variableName_renamed h.injective h.named (h.blocks b hb c hc) hkind
  case hparameter =>
    intro c hc hkind parameters hparameters parameter hmem
    exact Block.parameterName_renamed (h.blocks b hb c hc) hkind hparameters hmem

/-- The text of a program is completed alike with other ids. -/
theorem answer_finish {o : Options} {names other : VariableNames} {p q : Pass}
    (h : p.Renames names other q) (text : String) :
    Session.answer (Gen.onPass (fun p => p.finish text) o q) =
      Session.answer (Gen.onPass (fun p => p.finish text) o p) := by
  obtain ⟨-, rfl⟩ := h
  have hactive : (p.withNames { p.names with variableNames := other }).isActive = p.isActive := rfl
  have hstage : (p.withNames { p.names with variableNames := other }).stage = p.stage := rfl
  by_cases hp : p.isActive = true
  · rw [Gen.onPass_apply _ hp, Gen.onPass_apply _ (hactive.trans hp), Pass.finish, Pass.finish, hstage]
    by_cases hfinished : p.stage = .finished
    · rw [if_pos hfinished, if_pos hfinished]
      rfl
    · rw [if_neg hfinished, if_neg hfinished]
      rfl
  · rw [Gen.onPass_of_not_active _ hp, Gen.onPass_of_not_active _ (hactive ▸ hp)]
    rfl

/-- The names of parameters that are no ids are emitted under these names. -/
theorem emits_parameters {o : Options} {known : VariableNames} {names : List String} {p q : Pass}
    {emitted : List String} (hknown : p.names.variableNames = known)
    (hnames : ∀ name ∈ names, name ∉ known.ids)
    (hrun : (names.map Json.str).mapM Site.parameterName o p = .ok emitted q) :
    List.Forall₂ (q.Emits .userVariable) names emitted := by
  induction names generalizing p emitted with
  | nil =>
    obtain ⟨rfl, rfl⟩ := EStateM.Result.ok.inj hrun
    exact .nil
  | cons name rest ih =>
    rw [List.map_cons, List.mapM_cons] at hrun
    obtain ⟨first, p', hfirst, hrun⟩ := Gen.bind_eq_ok hrun
    change Gen.onPass (fun p => p.name name .userVariable) o p = .ok first p' at hfirst
    obtain ⟨others, q', hrest, hrun⟩ := Gen.bind_eq_ok hrun
    obtain ⟨rfl, rfl⟩ := EStateM.Result.ok.inj hrun
    have hmissing : known.lookup name = none := by
      rw [List.lookup_eq_none_iff]
      intro entry hentry
      have hother : name ≠ entry.1 := fun heq =>
        hnames name List.mem_cons_self (heq ▸ List.mem_map_of_mem hentry)
      exact bne_iff_ne.mpr hother
    have hmeant : p.names.meant name .userVariable = name := by
      rw [NameTable.meant, hknown, hmissing]
      rfl
    have hcomposed : Gen.Composed ((rest.map Json.str).mapM Site.parameterName) :=
      .mapM fun parameter _ => Site.parameterName_composed parameter
    have hemits := Gen.emits_after hfirst hcomposed
    rw [hmeant, Gen.passAfter_of_ok hrest] at hemits
    obtain ⟨-, -, hafter⟩ := Gen.onPass_eq_ok hfirst
    have hkept : p'.names.variableNames = known := by
      rw [← hafter]
      exact (p.names.variableNames_name name .userVariable).trans hknown
    exact .cons hemits (ih hkept (fun n hn => hnames n (List.mem_cons_of_mem _ hn)) hrest)

/-- The ids of variables matter through the names of the variables: with other ids for them a program
    is the same text or the same fault, if what its blocks ask for means the same. A parameter that
    is no id is emitted under its own name. -/
theorem programText_renamed (h : w.IsRenamable ρ) (o : Options) :
    (w.renamed ρ).programText o = w.programText o ∧
    ∀ (names : List String) (p q : Pass) (emitted : List String),
      p.names.variableNames = w.variableNames → (∀ name ∈ names, name ∉ w.variableNames.ids) →
      (names.map Json.str).mapM Site.parameterName o p = .ok emitted q →
        List.Forall₂ (q.Emits .userVariable) names emitted := by
  refine ⟨?_, ?_⟩
  · let start : Pass := .start (.new reservedWords o.variablePrefix?) w.variableNames
    let start' : Pass := .start (.new reservedWords o.variablePrefix?) (w.variableNames.renamed ρ)
    have hstart : start.Renames w.variableNames (w.variableNames.renamed ρ) start' := ⟨rfl, rfl⟩
    have hmain : Lockstep (Pass.Renames w.variableNames (w.variableNames.renamed ρ)) o
        (Session.mainText w.blocks) (Session.mainText (w.renamed ρ).blocks) Eq := by
      have hlines : Lockstep (Pass.Renames w.variableNames (w.variableNames.renamed ρ)) o
          (w.blocks.mapM Block.topLevelLine)
          ((w.blocks.map (Block.renamed ρ)).mapM Block.topLevelLine) Eq := by
        rw [List.mapM_map]
        exact (Gen.renames_congruence o _ _).mapM fun b hb => h.topLevelLine hb
      exact hlines.bind fun lines _ heq => heq ▸ .pure rfl
    have hboth := hmain start start' hstart
    rw [programText_eq, programText_eq]
    change Session.answer (Session.program (w.renamed ρ) o start') =
      Session.answer (Session.program w o start)
    rw [Session.program, Session.program, Gen.bind_apply, Gen.bind_apply]
    generalize Session.mainText w.blocks o start = result,
      Session.mainText (w.renamed ρ).blocks o start' = result' at hboth
    cases hboth with
    | error fault => rfl
    | ok hpass heq =>
      subst heq
      exact answer_finish hpass _
  · exact fun names p q emitted => emits_parameters

end Workspace

/-! ### Ids that change places -/

/-- A statement that assigns zero to the variable of an id. -/
def assignmentTo (id : String) : Block :=
  .mk ⟨.statement .assign, "set", [(.str "VAR", .str id)], .null, .bool false, true, []⟩ [] [] none

/-- A procedure with a parameter `x` and its body. -/
def procedureOfX (body : Option Block) : Block :=
  .mk ⟨.statement .procedure, "define", [(.str "NAME", .str "f")], .null, .bool false, true,
    [(.str "params", .arr [.str "x"])]⟩ [] [("STACK", body)] none

/-- A procedure with a parameter that is no id, and assignments in it and behind it. -/
def assignedTwice : Workspace :=
  ⟨[("u", "foo"), ("v", "bar")], [procedureOfX (some (assignmentTo "u")), assignmentTo "v"], .default⟩

theorem programText_assignedTwice : assignedTwice.programText .default =
    .ok "function f(x) \x7b\n  foo = 0;\n\x7d\n\n\nbar = 0;\n" := by
  with_unfolding_all rfl

theorem isRenamable_within_assignmentTo {id : String} (hid : id ∈ assignedTwice.variableNames.ids)
    {c : Block} (hc : c.Within (assignmentTo id)) :
    c.IsRenamable assignedTwice.variableNames (Equiv.swap "u" "v") := by
  cases hc with
  | child hmem _ => cases hmem
  | self =>
    constructor
    · intro _ value hvalue
      obtain rfl : .str id = value := Option.some.inj hvalue
      exact hid
    · intro name hname
      cases hname

theorem isRenamable_assignedTwice : assignedTwice.IsRenamable (Equiv.swap "u" "v") where
  injective _ _ _ _ h := (Equiv.swap "u" "v").injective h
  named := by decide
  blocks := by
    intro b hb c hc
    rcases List.mem_cons.mp hb with rfl | hb
    · cases hc with
      | self =>
        constructor
        · intro hkind
          cases hkind
        · intro name hname
          obtain rfl := List.mem_singleton.mp hname
          decide
      | child hmem hc =>
        obtain rfl := List.mem_singleton.mp hmem
        exact isRenamable_within_assignmentTo (by decide) hc
    · obtain rfl := List.mem_singleton.mp hb
      exact isRenamable_within_assignmentTo (by decide) hc

theorem programText_renamed_assignedTwice :
    (assignedTwice.renamed (Equiv.swap "u" "v")).programText .default =
      .ok "function f(x) \x7b\n  foo = 0;\n\x7d\n\n\nbar = 0;\n" ∧
    ∃ q : Pass, (["x"].map Json.str).mapM Site.parameterName .default
        (.start (.new reservedWords (some "")) assignedTwice.variableNames) = .ok ["x"] q ∧
      List.Forall₂ (q.Emits .userVariable) ["x"] ["x"] := by
  obtain ⟨hsame, hparameters⟩ := Workspace.programText_renamed isRenamable_assignedTwice .default
  refine ⟨hsame.trans programText_assignedTwice, ?_⟩
  have hrun : ∃ q : Pass, (["x"].map Json.str).mapM Site.parameterName .default
      (.start (.new reservedWords (some "")) assignedTwice.variableNames) = .ok ["x"] q :=
    ⟨_, by with_unfolding_all rfl⟩
  obtain ⟨q, hrun⟩ := hrun
  exact ⟨q, hrun, hparameters ["x"] _ q ["x"] rfl (by decide) hrun⟩

/-! ### A parameter that is an id -/

/-- A procedure with a parameter that is the id of a variable. -/
def parameterLikeId : Workspace :=
  ⟨[("x", "foo")], [procedureOfX none], .default⟩

/-- The parameter is emitted under the name of the variable, and under its own when the variable has
    another id. -/
theorem programText_parameterLikeId :
    parameterLikeId.programText .default = .ok "function f(foo) \x7b\n\x7d\n" ∧
    (parameterLikeId.renamed (Equiv.swap "x" "y")).programText .default =
      .ok "function f(x) \x7b\n\x7d\n" :=
  ⟨by with_unfolding_all rfl, by with_unfolding_all rfl⟩

end BlockScript
