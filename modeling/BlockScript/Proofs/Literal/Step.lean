/-
  BlockScript.Proofs.Literal.Step

  Steps that keep the invariant of a pass and let it grow. What such a step gives may speak of the
  pass as well, as long as it stays so when the pass grows: that a procedure is defined, for one.
-/
import BlockScript.Proofs.Literal.Definition

namespace BlockScript

open Script
open Gen (Allows onPass_eq_ok)

/-- Settings without hooks, with an indent and a prefix for variables that mean nothing to the
    reader of a script. -/
structure Options.IsPlain (o : Options) (variableLead lead : String) : Prop where
  statementPrefix : o.statementPrefix.isTruthy = false
  statementSuffix : o.statementSuffix.isTruthy = false
  loopTrap : o.loopTrap.isTruthy = false
  indent : o.indent = .str lead
  inert : Inert lead.toList
  variablePrefix : o.variablePrefix = .str variableLead
  closed : Closed variableLead

/-! ## Steps that speak of values -/

/-- The passes with the invariant that have what an earlier pass had. -/
def Pass.Since (F : Frame) (p₀ p : Pass) : Prop :=
  p.Fair F ∧ p₀.Grows p

namespace Gen

variable {F : Frame} {o : Options} {p₀ : Pass}

theorem record_since (entry : Record) :
    Allows o (Pass.Since F p₀) (Gen.record entry) fun _ => True := by
  intro p a p' hp hrun
  obtain ⟨-, -, rfl⟩ := onPass_eq_ok hrun
  obtain ⟨hfair, hgrows⟩ := hp.1.record entry
  exact ⟨⟨hfair, hp.2.trans hgrows⟩, trivial⟩

/-- The emitted name of a variable is code. -/
theorem variableName_since (hclosed : Closed F.variableLead) (name : String) :
    Allows o (Pass.Since F p₀) (Gen.variableName name) Closed := by
  intro p a p' hp hrun
  obtain ⟨-, candidate, hname, rfl⟩ := variableName_allows name p a p' hp.1.named hrun
  obtain ⟨-, -, rfl⟩ := onPass_eq_ok hrun
  obtain ⟨hfair, hgrows⟩ := hp.1.name name .userVariable
  exact ⟨⟨hfair, hp.2.trans hgrows⟩, hclosed.append (whole_name hname).closed⟩

/-- The emitted name of a procedure is code. -/
theorem procedureName_since (name : String) :
    Allows o (Pass.Since F p₀) (Gen.procedureName name) Closed := by
  intro p a p' hp hrun
  obtain ⟨-, hname⟩ := procedureName_allows name p a p' hp.1.named hrun
  obtain ⟨-, -, rfl⟩ := onPass_eq_ok hrun
  obtain ⟨hfair, hgrows⟩ := hp.1.name name .procedure
  exact ⟨⟨hfair, hp.2.trans hgrows⟩, (whole_name hname).closed⟩

/-- The emitted name of a helper is code. -/
theorem helper_since (ho : o.IsPlain F.variableLead F.lead) (name : String)
    (template : List String) (htemplate : FairTemplate template) :
    Allows o (Pass.Since F p₀) (Gen.helper name template) Closed := by
  intro p a p' hp hrun
  obtain ⟨-, hname⟩ := helper_allows name template p a p' hp.1.named hrun
  have hindent : o.indentText = .ok F.lead := by
    rw [Options.indentText, ho.indent]
    rfl
  rw [Gen.helper, bind_apply, options_apply] at hrun
  obtain ⟨-, -, rfl⟩ := onPass_eq_ok hrun
  rw [hindent]
  obtain ⟨hfair, hgrows⟩ := hp.1.provide ho.inert name htemplate
  exact ⟨⟨hfair, hp.2.trans hgrows⟩, (whole_name hname).closed⟩

/-! ## Steps that speak of the pass -/

/-- From a pass with the invariant a step leads, if it does not fail, to a pass with the invariant
    that has grown, and its result has a property by every pass that grows from there. -/
def Gives {α : Type} (F : Frame) (o : Options) (m : Gen α) (p : Pass) (Q : Pass → α → Prop) :
    Prop :=
  p.Fair F → ∀ a p', m o p = .ok a p' → p'.Fair F ∧ p.Grows p' ∧ ∀ r, p'.Grows r → Q r a

variable {α β : Type} {m : Gen α} {p : Pass} {Q Q' : Pass → α → Prop} {R : Pass → β → Prop}

namespace Gives

theorem pure {a : α} (h : ∀ r, p.Grows r → Q r a) : Gives F o (pure a) p Q := by
  intro hp b p' hrun
  obtain ⟨rfl, rfl⟩ := EStateM.Result.ok.inj hrun
  exact ⟨hp, .refl p, h⟩

theorem throw (fault : Fault) : Gives F o (throw fault : Gen α) p Q := by
  intro _ a p' hrun
  cases hrun

/-- What the first step gives is so by every pass that grows from behind the second one. -/
theorem bind {f : α → Gen β} (hm : Gives F o m p Q)
    (hf : ∀ a p', p.Grows p' → (∀ r, p'.Grows r → Q r a) →
      Gives F o (f a) p' fun r b => Q r a → R r b) :
    Gives F o (m >>= f) p R := by
  intro hp b p'' hrun
  obtain ⟨a, p', hfirst, hsecond⟩ := bind_eq_ok hrun
  obtain ⟨hp', hgrows, ha⟩ := hm hp a p' hfirst
  obtain ⟨hp'', hgrows', hb⟩ := hf a p' hgrows ha hp' b p'' hsecond
  exact ⟨hp'', hgrows.trans hgrows', fun r hr => hb r hr (ha r (hgrows'.trans hr))⟩

theorem mono (hm : Gives F o m p Q) (h : ∀ r a, Q r a → Q' r a) : Gives F o m p Q' := by
  intro hp a p' hrun
  obtain ⟨hp', hgrows, ha⟩ := hm hp a p' hrun
  exact ⟨hp', hgrows, fun r hr => h r a (ha r hr)⟩

/-- A step that keeps the invariant and only grows gives what it allows. -/
theorem of_allows {Q : α → Prop} (h : Allows o (Pass.Since F p) m Q) :
    Gives F o m p fun _ a => Q a := by
  intro hp a p' hrun
  obtain ⟨⟨hp', hgrows⟩, ha⟩ := h p a p' ⟨hp, .refl p⟩ hrun
  exact ⟨hp', hgrows, fun _ _ => ha⟩

/-- What a step gives from every pass, it allows. -/
theorem allows {Q : α → Prop} (h : ∀ p, Gives F o m p fun _ a => Q a) :
    Allows o (Pass.Since F p₀) m Q := by
  intro p a p' hp hrun
  obtain ⟨hp', hgrows, ha⟩ := h p hp.1 a p' hrun
  exact ⟨⟨hp', hp.2.trans hgrows⟩, ha p' (.refl p')⟩

theorem lifted {result : Except Fault α} :
    Gives F o (Gen.lift result) p fun _ a => result = .ok a :=
  of_allows Allows.lifted

theorem options : Gives F o Gen.options p fun _ a => a = o :=
  of_allows Allows.options

/-- A step for every item of a list gives a result for every item. -/
theorem mapM {f : α → Gen β} {S : α → Pass → β → Prop} {l : List α}
    (h : ∀ a ∈ l, ∀ p, Gives F o (f a) p (S a)) :
    Gives F o (l.mapM f) p fun r bs => List.Forall₂ (S · r ·) l bs := by
  induction l generalizing p with
  | nil =>
    rw [List.mapM_nil]
    exact pure fun _ _ => .nil
  | cons a rest ih =>
    rw [List.mapM_cons]
    refine bind (h a List.mem_cons_self p) fun b p' _ _ => ?_
    refine bind (ih fun c hc => h c (List.mem_cons_of_mem a hc)) fun bs p'' _ _ => ?_
    exact pure fun r _ hbs hb => .cons hb hbs

end Gives

/-- The emitted name of a procedure is code, and is remembered from then on. -/
theorem procedureName_gives (name : String) :
    Gives F o (Gen.procedureName name) p fun r emitted => Closed emitted ∧
      r.names.memo.lookup (NameTable.memoKey name .procedure) = some emitted := by
  intro hp a p' hrun
  obtain ⟨⟨hp', hgrows⟩, hclosed⟩ := procedureName_since name p a p' ⟨hp, .refl p⟩ hrun
  obtain ⟨-, hanswer, rfl⟩ := onPass_eq_ok hrun
  exact ⟨hp', hgrows, fun r hr => ⟨hclosed, hr.lookup _ _ (NameTable.lookup_of_name hanswer)⟩⟩

/-- A definition of a block under the name by which the block is known. -/
theorem define_gives {q : Block} (hq : F.occurs q) {name text : String}
    (hname : p.names.memo.lookup q.nameKey = some name) (htext : Carries (q.Texts F.lead) text) :
    Gives F o (Gen.define name text) p fun r _ => q.IsDefined r := by
  intro hp a p' hrun
  obtain ⟨-, -, rfl⟩ := onPass_eq_ok hrun
  obtain ⟨hfair, hgrows, hdefined⟩ := hp.define hq hname htext
  exact ⟨hfair, hgrows, fun r hr => hr.isDefined hdefined⟩

end Gen

end BlockScript
