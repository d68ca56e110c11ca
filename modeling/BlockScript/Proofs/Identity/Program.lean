/-
  BlockScript.Proofs.Identity.Program

  The ids of blocks do not reach a program, unless a hook asks for them. A rule writes an id into the
  records of the log and into the hooks; names, definitions and code are made from everything else.
-/
import BlockScript.Proofs.Generate.Heads
import BlockScript.Proofs.Generate.Mirroring

namespace BlockScript

open Gen (Lockstep)

/-! ## Hooks without the mark -/

/-- Where a pattern does not occur, nothing is replaced. -/
theorem Text.replaceFrom_of_absent {pattern s : List Char} (replacement : List Char)
    (h : ¬ pattern <:+: s) : replaceFrom pattern replacement 0 s = s := by
  induction s with
  | nil => rfl
  | cons c rest ih =>
    have hhead : ¬ pattern.isPrefixOf (c :: rest) = true :=
      fun hprefix => h (List.isPrefixOf_iff_prefix.mp hprefix).isInfix
    have hrest : ¬ pattern <:+: rest := fun hoccurs => h (hoccurs.trans (List.suffix_cons c rest).isInfix)
    rw [replaceFrom, if_neg hhead, ih hrest]

/-- Settings with hooks that do not ask for the ids of blocks. -/
def Options.OmitsIds (o : Options) : Prop :=
  ∀ hook, .str hook ∈ o.hooks → ¬ "%1".toList <:+: hook.toList

theorem Site.instantiate_of_absent {hook : String} (h : ¬ "%1".toList <:+: hook.toList)
    (id : String) : instantiate hook id = hook := by
  rw [instantiate, Text.replace, Text.replaceFrom_of_absent _ h, String.ofList_toList]

/-- A hook that does not ask for ids has the same text for all blocks. -/
theorem Options.OmitsIds.sameHooks {o : Options} (ho : o.OmitsIds) (s t : Site) :
    Site.SameHooks (fun a b => a = o ∧ b = o) s t := by
  rintro _ _ ⟨rfl, rfl⟩ setting hsetting
  cases setting with
  | str hook =>
    have homits := ho hook hsetting
    simp only [Site.hookText, Site.instantiate_of_absent homits]
  | _ => rfl

/-! ## Blocks without ids -/

/-- The head of a block without its id. -/
def Head.anonymous (head : Head) : Head :=
  { head with id := "" }

theorem Head.keepsRules_anonymous : Head.KeepsRules Head.anonymous where
  kind _ := rfl
  fields _ _ _ := rfl
  mutation _ := rfl
  comment _ := rfl
  output _ := rfl
  enabled _ := rfl

namespace Block

/-- The block without its id and without those of everything that hangs on it. -/
def anonymous (b : Block) : Block :=
  b.mapHeads Head.anonymous

/-- The line of a block that nothing holds is the same without ids, but for what is recorded. -/
theorem topLevelLine_anonymous {o : Options} (ho : o.OmitsIds) (b : Block) :
    Lockstep Pass.Mirrors o b.topLevelLine b.anonymous.topLevelLine Eq := by
  have hname := Gen.mirrors_name o
  apply topLevelLine_mapHeads (Gen.mirrors_congruence o) (fun _ _ h => h.1.trans h.2.symm)
    Head.keepsRules_anonymous
  case hrecord => exact fun _ _ _ _ => Gen.mirrors_records o _ _
  case hhooks => exact fun s t _ => ho.sameHooks s t
  case hprocedureName => exact Gen.mirrors_procedureName o
  case hdefine => exact Gen.mirrors_define o
  case hvariable =>
    intro c _ _ attached
    have hhead : ((c.mapHeads Head.anonymous).site attached).head =
        (c.site attached).head.anonymous := c.head_mapHeads _
    rw [Site.variableName, Site.variableName, hhead]
    exact hname _ _
  case hparameter =>
    exact fun _ _ _ _ _ parameter _ =>
      Site.parameterName_related (Gen.mirrors_congruence o) (hname · _) parameter

end Block

/-! ## Programs -/

namespace Workspace

/-- The workspace without the ids of its blocks. -/
def anonymous (w : Workspace) : Workspace :=
  { w with blocks := w.blocks.map Block.anonymous }

/-- The main text is the same without ids. -/
theorem mainText_anonymous {o : Options} (ho : o.OmitsIds) (blocks : List Block) :
    Lockstep Pass.Mirrors o (Session.mainText blocks)
      (Session.mainText (blocks.map Block.anonymous)) Eq := by
  rw [Session.mainText, Session.mainText, List.mapM_map]
  have hcongruence := Gen.mirrors_congruence o
  apply hcongruence.bind (hcongruence.mapM fun b _ => b.topLevelLine_anonymous ho)
  exact fun lines => hcongruence.pure _

/-- A workspace comes to the same program, or to the same fault, without the ids of its blocks. -/
theorem programText_anonymous {o : Options} (ho : o.OmitsIds) (w : Workspace) :
    w.anonymous.programText o = w.programText o := by
  have hvariables : w.variableNames = w.anonymous.variableNames := rfl
  exact (programText_of_mirrors hvariables (mainText_anonymous ho w.blocks)).symm

/-- Workspaces that differ in the ids of their blocks come to the same program. -/
theorem programText_of_anonymous {w w' : Workspace} (h : w.anonymous = w'.anonymous) {o : Options}
    (ho : o.OmitsIds) : w.programText o = w'.programText o := by
  rw [← w.programText_anonymous ho, ← w'.programText_anonymous ho, h]

end Workspace

end BlockScript
