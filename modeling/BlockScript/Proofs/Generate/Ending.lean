/-
  BlockScript.Proofs.Generate.Ending

  Generation comes to an end. The one step that may go on for ever is the wrapping of a comment at
  NaN; at every other column a run has a text, or it has a fault of which the user is told.
-/
import BlockScript.Proofs.Comment.Width
import BlockScript.Proofs.Generate.Congruence
import BlockScript.Proofs.Generate.Failure
import BlockScript.Proofs.Session.Isolation

namespace BlockScript

namespace Gen

variable {α β : Type} {o : Options}

/-- A step that fails within bounds, if at all, under certain settings. -/
def Ends (o : Options) (m : Gen α) : Prop :=
  ∀ p fault q, m o p = .error fault q → fault.isBeyond = false

namespace Ends

theorem of_failsWith {m : Gen α} (h : FailsWith (fun fault => fault.isBeyond = false) m) :
    Ends o m :=
  h o

theorem bind {m : Gen α} {f : α → Gen β} (hm : Ends o m) (hf : ∀ a, Ends o (f a)) :
    Ends o (m >>= f) := by
  intro p fault q hrun
  rw [bind_apply] at hrun
  cases hfirst : m o p with
  | ok a p' =>
    rw [hfirst] at hrun
    exact hf a p' fault q hrun
  | error fault' p' =>
    rw [hfirst] at hrun
    obtain ⟨rfl, -⟩ := EStateM.Result.error.inj hrun
    exact hm p fault' p' hfirst

theorem lift {result : Except Fault α} (h : Fault.Bounds result) : Ends o (Gen.lift result) :=
  of_failsWith (.lift h)

theorem pure (a : α) : Ends o (pure a : Gen α) :=
  of_failsWith (.pure a)

theorem name (name : String) (category : Category) :
    Ends o (Gen.onPass fun p => p.name name category) :=
  of_failsWith (.onPass rfl fun p fault hanswer => p.names.name_bounds name category fault hanswer)

theorem define (name text : String) : Ends o (Gen.define name text) :=
  of_failsWith (.onPass rfl fun p fault hanswer => by cases hanswer)

/-- Steps that end may be put together. Where a comment is wrapped, the column is not NaN. -/
theorem congruence (hcolumn : o.commentWrap.isNaN = false) :
    Congruence (fun a b => a = o ∧ b = o) fun m _ => Ends o m := by
  have hpass : ∀ fault : Fault, fault.IsOfPass → fault.isBeyond = false := by
    intro fault hfault
    cases fault with
    | loneHalf | endlessWrap => cases hfault
    | _ => rfl
  constructor
  case pure => exact pure
  case throw => exact fun fault h => of_failsWith (.throw h)
  case bind => exact fun hm hf => bind hm hf
  case options => exact fun hf => hf o o ⟨rfl, rfl⟩
  case wrapped =>
    rintro text _ _ width ⟨rfl, rfl⟩ hwidth
    exact lift (Site.wrapped_bounds text (Site.isNaN_commentWidth hcolumn hwidth))
  case requirePass => exact of_failsWith (.requirePass hpass)
  case record => exact fun entry => of_failsWith (.record hpass entry)
  case call => exact fun source _ _ h => bind (name source .procedure) fun _ => bind h fun _ => pure _
  case routine => exact fun routine arguments _ => of_failsWith (.callRoutine hpass routine arguments)

end Ends

end Gen

open Gen (Ends)

/-- The main text of a workspace comes to an end. -/
theorem Session.mainText_ends {o : Options} (hcolumn : o.commentWrap.isNaN = false)
    (blocks : List Block) : Ends o (mainText blocks) := by
  have hsettings : ∀ a b : Options, a = o ∧ b = o → a = b := fun _ _ h => h.1.trans h.2.symm
  have hcongruence := Ends.congruence hcolumn
  apply Block.mainText_related hcongruence hsettings (fun _ => .name _ _)
  intro site hsite hcomplete
  exact hsite.defineProcedure hcongruence hsettings
    (fun _ _ parameter _ => Site.parameterName_related hcongruence (fun _ => .name _ _) parameter)
    hcomplete (fun _ => .name _ _) .define

/-- Generation comes to an end at every column but NaN, for every workspace. -/
theorem Workspace.programText_bounds (w : Workspace) {o : Options}
    (hcolumn : o.commentWrap.isNaN = false) : Fault.Bounds (w.programText o) := by
  intro fault hfault
  have hfinish (text : String) : Ends o (Gen.onPass fun p => p.finish text) := by
    have hanswer (p : Pass) : Fault.Bounds (p.finish text).1 := by
      rw [Pass.finish]
      split
      · exact .throw rfl
      · exact .pure _
    exact .of_failsWith (.onPass rfl hanswer)
  have hprogram : Ends o (Session.program w) :=
    (Session.mainText_ends hcolumn w.blocks).bind hfinish
  rw [w.programText_eq] at hfault
  cases hrun : Session.program w o
      (.start (.new reservedWords o.variablePrefix?) w.variableNames) with
  | ok text q =>
    rw [hrun] at hfault
    cases hfault
  | error fault' q =>
    rw [hrun] at hfault
    obtain rfl := Except.error.inj hfault
    exact hprogram _ _ _ hrun

end BlockScript
