/-
  BlockScript.Proofs.Generate.Failure

  The faults of steps. What is known of the faults of two steps is known of one behind the other, so
  what a rule may fail with is gathered from its parts: the steps on a pass, the inputs of the block,
  and what the rule itself refuses. The steps on a pass fail where no pass is in progress, and where
  a text of the settings is none.
-/
import BlockScript.Proofs.Generate.Inputs
import BlockScript.Proofs.Generate.Value
import BlockScript.Proofs.Helper.Routine

namespace BlockScript

/-- The faults of the steps on a pass. -/
def Fault.IsOfPass : Fault → Prop
  | noPass | prefixNotText | indentNotText => True
  | _ => False

/-- The faults of the comment of a block: it is no text, or it cannot be wrapped. -/
def Fault.IsOfComment : Fault → Prop
  | wrapNotANumber _ | widthNotPositive | commentNotText | endlessWrap => True
  | _ => False

namespace Gen

/-- A step fails with faults of a sort only. -/
def FailsWith {α : Type} (P : Fault → Prop) (m : Gen α) : Prop :=
  ∀ o p fault q, m o p = .error fault q → P fault

variable {α β : Type} {P : Fault → Prop}

namespace FailsWith

theorem pure (a : α) : FailsWith P (pure a : Gen α) := by
  intro o p fault q hrun
  cases hrun

theorem throw {fault : Fault} (h : P fault) : FailsWith P (throw fault : Gen α) := by
  intro o p fault' q hrun
  obtain ⟨rfl, -⟩ := EStateM.Result.error.inj hrun
  exact h

theorem bind {m : Gen α} {f : α → Gen β} (hm : FailsWith P m) (hf : ∀ a, FailsWith P (f a)) :
    FailsWith P (m >>= f) := by
  intro o p fault q hrun
  rw [bind_apply] at hrun
  cases hfirst : m o p with
  | ok a p' =>
    rw [hfirst] at hrun
    exact hf a o p' fault q hrun
  | error fault' p' =>
    rw [hfirst] at hrun
    obtain ⟨rfl, -⟩ := EStateM.Result.error.inj hrun
    exact hm o p fault' p' hfirst

theorem options : FailsWith P Gen.options := by
  intro o p fault q hrun
  cases hrun

theorem lift {result : Except Fault α} (h : ∀ fault, result = .error fault → P fault) :
    FailsWith P (Gen.lift result) := by
  cases result with
  | ok a => exact pure a
  | error fault => exact throw (h fault rfl)

theorem onPass {step : Pass → Except Fault α × Pass} (hpass : P .noPass)
    (h : ∀ p fault, (step p).1 = .error fault → P fault) : FailsWith P (Gen.onPass step) := by
  intro o p fault q hrun
  by_cases hp : p.isActive = true
  · rw [onPass_apply step hp] at hrun
    cases hstep : (step p).1 with
    | ok a =>
      rw [hstep] at hrun
      cases hrun
    | error fault' =>
      rw [hstep] at hrun
      obtain ⟨rfl, -⟩ := EStateM.Result.error.inj hrun
      exact h p fault' hstep
  · rw [onPass_of_not_active step hp] at hrun
    obtain ⟨rfl, -⟩ := EStateM.Result.error.inj hrun
    exact hpass

section
variable (hpass : ∀ fault, fault.IsOfPass → P fault)
include hpass

theorem requirePass : FailsWith P Gen.requirePass :=
  onPass (hpass _ trivial) fun p fault hstep => by cases hstep

theorem record (entry : Record) : FailsWith P (Gen.record entry) :=
  onPass (hpass _ trivial) fun p fault hstep => by cases hstep

/-- A helper cannot be provided if the indent is no text. -/
theorem helper (name : String) (template : List String) :
    FailsWith P (Gen.helper name template) := by
  -- The settings are those of the run, so the indent is that of the settings.
  intro o p fault q hrun
  have hprovide : ∀ p : Pass, ∀ fault, (p.provide o.indentText name template).1 = .error fault →
      P fault := by
    intro p fault hanswer
    rw [Pass.provide, Registry.provide] at hanswer
    cases hknown : p.registry.helpers.lookup name with
    | some emitted =>
      rw [hknown] at hanswer
      cases hanswer
    | none =>
      rw [hknown] at hanswer
      cases hindent : o.indentText with
      | ok indent =>
        rw [hindent] at hanswer
        cases hanswer
      | error fault' =>
        rw [hindent] at hanswer
        obtain rfl := Except.error.inj hanswer
        rw [Options.indentText] at hindent
        split at hindent
        · cases hindent
        · obtain rfl := Except.error.inj hindent
          exact hpass _ trivial
  exact onPass (hpass _ trivial) hprovide o p fault q hrun

theorem callRoutine (routine : Routine) (arguments : List String) :
    FailsWith P (Gen.callRoutine routine arguments) :=
  bind (helper hpass _ _) fun _ => pure _

end

end FailsWith

end Gen

namespace Site

open Gen (FailsWith)

variable {P : Fault → Prop} {site : Site}

/-! ## Comments -/

theorem ownComment_failsWith (hcomment : ∀ fault, fault.IsOfComment → P fault) :
    FailsWith P site.ownComment := by
  rw [ownComment]
  split
  · exact .pure _
  · split
    · refine FailsWith.options.bind fun options => ?_
      refine (FailsWith.lift fun fault hwidth => ?_).bind fun width =>
        (FailsWith.lift fun fault hwrapped => ?_).bind fun text => .pure _
      · rw [commentWidth] at hwidth
        split at hwidth
        · cases hwidth
        · obtain rfl := Except.error.inj hwidth
          exact hcomment _ trivial
      · rw [wrapped] at hwrapped
        split at hwrapped
        · cases hwrapped
        · obtain rfl := Except.error.inj hwrapped
          split
          · exact hcomment _ trivial
          · exact hcomment _ trivial
    · exact .throw (hcomment _ trivial)

/-- Without blocks in its value slots a block has only its own comment ahead of its code. -/
theorem comments_failsWith (hcomment : ∀ fault, fault.IsOfComment → P fault)
    (hvalues : site.values.filterMap (·.2) = []) : FailsWith P site.comments := by
  -- The comments of blocks in the value slots would go ahead of the code as well.
  have hinputs : inputComments site.values = .ok "" := by
    apply inputComments_eq_empty
    rw [hvalues]
    exact fun input hinput => absurd hinput List.not_mem_nil
  rw [comments, hinputs]
  split
  · exact .pure _
  · exact (ownComment_failsWith hcomment).bind fun _ => .pure _

variable (hpass : ∀ fault, fault.IsOfPass → P fault)
  (hvalue : ∀ name outer, FailsWith P (site.value name outer))
include hpass hvalue

/-! ## Values -/

theorem valueOr_failsWith (name : String) (outer : Order) (default : String) :
    FailsWith P (site.valueOr name outer default) := by
  refine (hvalue name outer).bind fun code => ?_
  split
  · exact (FailsWith.record hpass _).bind fun _ => .pure _
  · exact .pure _

/-! ## Indices -/

section
variable (hnumeral : P .notANumeral) (hrange : P .indexOutOfRange)
include hnumeral hrange

theorem adjustedIndex_failsWith (slot : String) (delta : Int) (negated : Bool) (order : Order) :
    FailsWith P (site.adjustedIndex slot delta negated order) := by
  refine FailsWith.options.bind fun options => ?_
  refine (valueOr_failsWith hpass hvalue _ _ _).bind fun code => ?_
  -- A numeral is folded, which can be refused; other code is not read.
  split
  · refine .lift fun fault hfolded => ?_
    rw [foldedIndex] at hfolded
    split at hfolded
    · obtain rfl := Except.error.inj hfolded
      exact hnumeral
    · split at hfolded
      · obtain rfl := Except.error.inj hfolded
        exact hrange
      · cases hfolded
  · exact .pure _

theorem sliceFrom_failsWith (text first : String) (stop : Edge) :
    FailsWith P (site.sliceFrom text first stop) := by
  have hindex := adjustedIndex_failsWith hpass hvalue hnumeral hrange
  cases stop with
  | outermost => exact .pure _
  | fromStart => exact (hindex _ _ _ _).bind fun _ => .pure _
  | fromEnd => exact (hindex _ _ _ _).bind fun _ => .pure _

theorem edgeArgument_failsWith (slot : String) (edge : Edge) :
    FailsWith P (site.edgeArgument slot edge) := by
  have hindex := adjustedIndex_failsWith hpass hvalue hnumeral hrange
  rw [edgeArgument]
  split
  · exact .pure _
  · exact (hindex _ _ _ _).bind fun _ => .pure _

/-- What is written of a part of a text, once its ends are known. -/
theorem inlineSubstring_failsWith (text : String) (start stop : Edge) :
    FailsWith P (site.inlineSubstring text start stop) := by
  have hindex := adjustedIndex_failsWith hpass hvalue hnumeral hrange
  have hslice := sliceFrom_failsWith hpass hvalue hnumeral hrange
  rw [inlineSubstring_eq]
  cases start with
  | outermost => exact hslice text "0" stop
  | fromStart => exact (hindex _ _ _ _).bind fun _ => hslice _ _ _
  | fromEnd => exact (hindex _ _ _ _).bind fun _ => hslice _ _ _

theorem helperSubstring_failsWith (text : String) (start stop : Edge) :
    FailsWith P (site.helperSubstring text start stop) := by
  rw [helperSubstring_eq_callRoutine]
  have hedge := edgeArgument_failsWith hpass hvalue hnumeral hrange
  exact (hedge _ _).bind fun _ => (hedge _ _).bind fun _ => .callRoutine hpass _ _

end

end Site

end BlockScript
