/-
  BlockScript.Proofs.Generate.Composed

  Steps that are composed of the steps on a pass: reading the settings, adding a record, asking for
  a name, providing a helper, defining a procedure. All code of blocks is generated by such steps.

  So what is to hold of every run is shown of these few steps, and of one step behind another; no
  rule is looked at again. `Composed.keeps` does so for an invariant of the pass, which is kept by a
  step that fails as well.
-/
import BlockScript.Proofs.Generate.Congruence
import BlockScript.Proofs.Literal.Placement
import BlockScript.Session

namespace BlockScript

namespace Gen

/-! ## Composed steps -/

/-- A step that is composed of the steps on a pass. -/
inductive Composed : {α : Type} → Gen α → Prop
  | pure {α : Type} (a : α) : Composed (pure a)
  | throw {α : Type} (fault : Fault) : Composed (throw fault : Gen α)
  | options : Composed options
  | requirePass : Composed requirePass
  | record (entry : Record) : Composed (record entry)
  | name (name : String) (category : Category) : Composed (onPass fun p => p.name name category)
  | provide (indent : Except Fault String) (name : String) (template : List String) :
      Composed (onPass fun p => p.provide indent name template)
  | define (name text : String) : Composed (define name text)
  | bind {α β : Type} {m : Gen α} {f : α → Gen β} (hm : Composed m) (hf : ∀ a, Composed (f a)) :
      Composed (m >>= f)

namespace Composed

theorem lift {α : Type} (result : Except Fault α) : Composed (Gen.lift result) := by
  cases result with
  | ok a => exact .pure a
  | error fault => exact .throw fault

theorem helper (name : String) (template : List String) : Composed (Gen.helper name template) :=
  .bind .options fun options => .provide options.indentText name template

/-- A composed step for every item of a list. -/
theorem mapM {α β : Type} {f : α → Gen β} {l : List α} (h : ∀ a ∈ l, Composed (f a)) :
    Composed (l.mapM f) := by
  induction l with
  | nil =>
    rw [List.mapM_nil]
    exact .pure []
  | cons a rest ih =>
    rw [List.mapM_cons]
    have hrest := ih fun b hb => h b (List.mem_cons_of_mem a hb)
    exact .bind (h a List.mem_cons_self) fun b => .bind hrest fun bs => .pure (b :: bs)

end Composed

/-! ## Invariants -/

/-- The pass that a step leaves behind, whether it fails or not. -/
def passAfter {α : Type} (o : Options) (m : Gen α) (p : Pass) : Pass :=
  match m o p with
  | .ok _ p' => p'
  | .error _ p' => p'

theorem passAfter_of_ok {α : Type} {o : Options} {m : Gen α} {p p' : Pass} {a : α}
    (h : m o p = .ok a p') : passAfter o m p = p' := by
  rw [passAfter, h]

/-- A step on the pass leaves what it makes of a pass in progress, and any other pass as it is. -/
theorem passAfter_onPass {α : Type} (o : Options) (step : Pass → Except Fault α × Pass) (p : Pass) :
    passAfter o (onPass step) p = if p.isActive then (step p).2 else p := by
  by_cases hp : p.isActive = true
  · rw [passAfter, onPass_apply step hp, if_pos hp]
    cases (step p).1 <;> rfl
  · rw [passAfter, onPass_of_not_active step hp, if_neg hp]

end Gen

/-- A property that the steps on a pass keep. -/
structure Pass.IsInvariant (I : Pass → Prop) : Prop where
  record : ∀ p entry, I p → I (p.record entry)
  name : ∀ p name category, I p → I (p.name name category).2
  provide : ∀ p indent name template, I p → I (p.provide indent name template).2
  define : ∀ p name text, I p → I (p.define name text)

theorem Pass.IsInvariant.and {I J : Pass → Prop} (hI : IsInvariant I) (hJ : IsInvariant J) :
    IsInvariant fun p => I p ∧ J p where
  record p entry h := ⟨hI.record p entry h.1, hJ.record p entry h.2⟩
  name p name category h := ⟨hI.name p name category h.1, hJ.name p name category h.2⟩
  provide p indent name template h :=
    ⟨hI.provide p indent name template h.1, hJ.provide p indent name template h.2⟩
  define p name text h := ⟨hI.define p name text h.1, hJ.define p name text h.2⟩

namespace Gen

/-- A step keeps a property of the pass, whether it fails or not. -/
def Keeps {α : Type} (I : Pass → Prop) (o : Options) (m : Gen α) : Prop :=
  ∀ p, I p → I (passAfter o m p)

variable {I : Pass → Prop} {o : Options}

/-- A step on the pass keeps what it keeps of a pass in progress. -/
theorem keeps_onPass {α : Type} {step : Pass → Except Fault α × Pass}
    (h : ∀ p, I p → I (step p).2) : Keeps I o (onPass step) := by
  intro p hp
  rw [passAfter_onPass]
  split
  · exact h p hp
  · exact hp

theorem Keeps.bind {α β : Type} {m : Gen α} {f : α → Gen β} (hm : Keeps I o m)
    (hf : ∀ a, Keeps I o (f a)) : Keeps I o (m >>= f) := by
  intro p hp
  have hfirst := hm p hp
  rw [passAfter] at hfirst ⊢
  rw [bind_apply]
  -- The second step runs only where the first one did not fail.
  cases hrun : m o p with
  | ok a q =>
    rw [hrun] at hfirst
    exact hf a q hfirst
  | error fault q =>
    rw [hrun] at hfirst
    exact hfirst

/-- A composed step keeps every invariant, also where it fails. -/
theorem Composed.keeps (hI : Pass.IsInvariant I) {α : Type} {m : Gen α} (h : m.Composed) :
    Keeps I o m := by
  -- Induction on how the step is composed: the pass changes in four of the cases only.
  induction h with
  | pure a => exact fun p hp => hp
  | throw fault => exact fun p hp => hp
  | options => exact fun p hp => hp
  | requirePass => exact keeps_onPass fun p hp => hp
  | record entry => exact keeps_onPass fun p hp => hI.record p entry hp
  | name name category => exact keeps_onPass fun p hp => hI.name p name category hp
  | provide indent name template =>
    exact keeps_onPass fun p hp => hI.provide p indent name template hp
  | define name text => exact keeps_onPass fun p hp => hI.define p name text hp
  | bind hm hf ihm ihf => exact ihm.bind ihf

theorem Composed.allows (hI : Pass.IsInvariant I) {α : Type} {m : Gen α} (h : m.Composed) :
    Allows o I m fun _ => True := by
  intro p a p' hp hrun
  have hafter := h.keeps (o := o) hI p hp
  rw [passAfter_of_ok hrun] at hafter
  exact ⟨hafter, trivial⟩

end Gen

/-! ## Rules -/

/-- Steps are composed of the steps on a pass where they are put together. -/
theorem Gen.Composed.congruence : Congruence Eq fun m _ => m.Composed where
  pure := .pure
  throw fault _ := .throw fault
  wrapped _ _ _ _ _ _ := .lift _
  bind hm hf := .bind hm hf
  options hf := .bind .options fun o => hf o o rfl
  requirePass := .requirePass
  record := .record
  call _ _ _ h := .bind (.name _ _) fun _ => .bind h fun _ => .pure _
  routine _ _ _ := .bind (.helper _ _) fun _ => .pure _

namespace Site

open Gen (Composed)

theorem branchHook_composed (site : Site) : site.branchHook.Composed :=
  branchHook_related Composed.congruence (fun _ _ h => h) (.of_id rfl)

theorem parameterName_composed (parameter : Json) : (parameterName parameter).Composed :=
  parameterName_related Composed.congruence (fun _ => .name _ _) parameter

/-- What defines a procedure is composed if the inputs are. -/
theorem defineProcedure_composed (site : Site) (h : Matched Eq (fun m _ => m.Composed) site site)
    (hcomplete : ∀ code, (site.complete code false).Composed) : site.defineProcedure.Composed :=
  h.defineProcedure Composed.congruence (fun _ _ h => h)
    (fun _ _ parameter _ => parameterName_composed parameter) hcomplete (fun _ => .name _ _) .define

end Site

namespace Block

/-- The code of every block is a composed step. -/
theorem code_composed (b : Block) : ∀ attached alone, (b.code attached alone).Composed :=
  b.code_related Gen.Composed.congruence (fun _ _ ho => ho) (fun _ => .name _ _)
    Site.defineProcedure_composed

end Block

/-- The main text of a workspace is a composed step. -/
theorem Session.mainText_composed (blocks : List Block) : (mainText blocks).Composed :=
  Block.mainText_related Gen.Composed.congruence (fun _ _ ho => ho) (fun _ => .name _ _)
    Site.defineProcedure_composed blocks

/-! ## Inputs -/

/-- A block of which the inputs are composed steps. -/
structure Site.HasComposedInputs (site : Site) : Prop where
  value : ∀ name input, inSlot site.values name = some input → input.code.Composed
  chain : ∀ name input, inSlot site.statements name = some input → input.code.Composed
  next : ∀ input, site.next = some input → input.code.Composed

namespace Site

open Gen (Composed)

variable {site : Site} (h : site.HasComposedInputs)
include h

/-- A block with composed inputs goes with itself. -/
theorem HasComposedInputs.matched : Matched Eq (fun m _ => m.Composed) site site := by
  have hslot : ∀ slots, (∀ name input, inSlot slots name = some input → input.code.Composed) →
      ∀ name, Option.Rel (Input.Related fun m _ => m.Composed) (inSlot slots name)
        (inSlot slots name) := by
    intro slots hslots name
    cases hinput : inSlot slots name with
    | none => exact .none
    | some input => exact .some ⟨rfl, hslots name input hinput⟩
  constructor
  · constructor
    case value =>
      exact fun name => value_related Composed.congruence (hslot _ h.value name)
    case record => exact record_of_id Composed.congruence rfl
    case fields => exact fun _ _ => rfl
    all_goals rfl
  · exact .of_id rfl
  · exact fun name => chain_related Composed.congruence (fun _ _ h => h) (hslot _ h.chain name)
  · exact fun _ => rfl
  · rfl

theorem HasComposedInputs.value_composed (name : String) (outer : Order) :
    (site.value name outer).Composed :=
  h.matched.value name outer

theorem HasComposedInputs.valueOr_composed (name : String) (outer : Order) (default : String) :
    (site.valueOr name outer default).Composed :=
  h.matched.valueOr Composed.congruence name outer default

theorem HasComposedInputs.textValue_composed (name : String) : (site.textValue name).Composed :=
  h.valueOr_composed name _ _

/-- Every rule for values is composed. -/
theorem expression_composed (kind : ValueKind) : (site.expression kind).Composed :=
  h.matched.expression Composed.congruence (fun _ _ h => congrArg Options.isOneBased h) kind
    fun _ => .name _ _

theorem arguments_composed : site.arguments.Composed :=
  h.matched.arguments Composed.congruence

/-- The code of a block with comments ahead and the blocks that follow. -/
theorem complete_composed (code : String) (alone : Bool) : (site.complete code alone).Composed := by
  have hnext : Option.Rel (Input.Related fun m _ => m.Composed) site.next site.next := by
    cases hinput : site.next with
    | none => exact .none
    | some input => exact .some ⟨rfl, h.next input hinput⟩
  have hcomments : site.comments.Composed :=
    comments_related (t := site) Composed.congruence (fun _ _ h => congrArg Options.commentWrap h)
      rfl rfl rfl
  exact complete_related (t := site) Composed.congruence hcomments
    (nextCode_related Composed.congruence hnext) code alone

/-- The text of a procedure is composed. -/
theorem procedureText_composed (o : Options) (name : String) :
    (site.procedureText o name).Composed :=
  h.matched.procedureText Composed.congruence (fun _ _ h => h)
    (fun _ _ parameter _ => parameterName_composed parameter)
    (fun code => complete_composed h code false) rfl name

/-- Every rule for statements is composed. -/
theorem statement_composed (kind : StatementKind) : (site.statement kind).Composed := by
  apply h.matched.statement Composed.congruence (fun _ _ h => h) kind fun _ => .name _ _
  intro _
  exact site.defineProcedure_composed h.matched fun code => complete_composed h code false

end Site

/-- The inputs of every block are composed. -/
theorem Block.hasComposedInputs (b : Block) (attached : Bool) :
    (b.site attached).HasComposedInputs := by
  have hslot : ∀ slots name input, Site.inSlot (inputs slots) name = some input →
      input.code.Composed := by
    intro slots name input hinput
    rw [inSlot_inputs] at hinput
    obtain ⟨c, hc, rfl⟩ := Option.map_eq_some_iff.mp hinput
    exact c.code_composed true false
  constructor
  · exact hslot b.values
  · exact hslot b.statements
  · intro input hinput
    change Block.input b.next = some input at hinput
    cases hnext : b.next with
    | none =>
      rw [hnext] at hinput
      cases hinput
    | some c =>
      rw [hnext] at hinput
      obtain rfl := Option.some.inj hinput
      exact c.code_composed true false

end BlockScript
