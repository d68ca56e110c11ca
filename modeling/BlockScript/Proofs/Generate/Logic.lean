/-
  BlockScript.Proofs.Generate.Logic

  Two ways to speak of a step of generation. `Allows` is partial: from a pass with a property the
  step leads, if it does not fail, to a pass with that property and to a result with another one.
  `Meets` is total: the step does not fail on a pass, and what it comes to has a property.
-/
import BlockScript.Generate.Monad
import Mathlib.Data.List.Forall2

namespace BlockScript.Gen

variable {α β : Type} {o : Options} {I : Pass → Prop} {p : Pass}

/-! ## Results of steps -/

theorem lift_ok (a : α) : Gen.lift (.ok a) = pure a := rfl

theorem bind_apply (m : Gen α) (f : α → Gen β) : (m >>= f) o p =
    match m o p with
    | .ok a p' => f a o p'
    | .error fault p' => .error fault p' := by
  change EStateM.bind (m o) (fun a => f a o) p = _
  rw [EStateM.bind]
  cases m o p <;> rfl

theorem options_apply : Gen.options o p = .ok o p := rfl

/-- A sequence that does not fail is one step that does not fail, and another one. -/
theorem bind_eq_ok {m : Gen α} {f : α → Gen β} {b : β} {p' : Pass}
    (h : (m >>= f) o p = .ok b p') : ∃ a q, m o p = .ok a q ∧ f a o q = .ok b p' := by
  rw [bind_apply] at h
  cases hm : m o p with
  | ok a q =>
    rw [hm] at h
    exact ⟨a, q, rfl, h⟩
  | error fault q =>
    rw [hm] at h
    cases h

theorem onPass_apply (step : Pass → Except Fault α × Pass) (hp : p.isActive = true) :
    Gen.onPass step o p = match (step p).1 with
      | .ok a => .ok a (step p).2
      | .error fault => .error fault (step p).2 := by
  have hget : (get : Gen Pass) o p = .ok p p := rfl
  rw [Gen.onPass, bind_apply, hget]
  simp only [hp, if_true]
  cases hstep : (step p).1 <;> rfl

theorem onPass_of_not_active (step : Pass → Except Fault α × Pass) (hp : ¬ p.isActive = true) :
    Gen.onPass step o p = .error .noPass p := by
  have hget : (get : Gen Pass) o p = .ok p p := rfl
  rw [Gen.onPass, bind_apply, hget]
  simp only [hp]
  rfl

/-- A step on the pass that does not fail finds a pass in progress. -/
theorem onPass_eq_ok {step : Pass → Except Fault α × Pass} {a : α} {p' : Pass}
    (h : Gen.onPass step o p = .ok a p') :
    p.isActive = true ∧ (step p).1 = .ok a ∧ (step p).2 = p' := by
  by_cases hp : p.isActive = true
  · rw [onPass_apply step hp] at h
    cases hstep : (step p).1 with
    | ok b =>
      rw [hstep] at h
      obtain ⟨rfl, rfl⟩ := EStateM.Result.ok.inj h
      exact ⟨hp, rfl, rfl⟩
    | error fault =>
      rw [hstep] at h
      cases h
  · rw [onPass_of_not_active step hp] at h
    cases h

/-! ## Partial correctness -/

/-- A step leads, if it does not fail, from passes with a property to passes with it, and to results
    with another one. -/
def Allows (o : Options) (I : Pass → Prop) (m : Gen α) (Q : α → Prop) : Prop :=
  ∀ p a p', I p → m o p = .ok a p' → I p' ∧ Q a

namespace Allows

variable {m : Gen α} {Q Q' : α → Prop} {R : β → Prop}

theorem pure {a : α} (h : Q a) : Allows o I (pure a) Q := by
  intro p b p' hp hrun
  obtain ⟨rfl, rfl⟩ := EStateM.Result.ok.inj hrun
  exact ⟨hp, h⟩

theorem throw (fault : Fault) : Allows o I (throw fault : Gen α) Q := by
  intro p a p' _ hrun
  cases hrun

/-- Of a step nothing need be known. -/
theorem unknown (m : Gen α) : Allows o (fun _ => True) m fun _ => True :=
  fun _ _ _ _ _ => ⟨trivial, trivial⟩

theorem bind {f : α → Gen β} (hm : Allows o I m Q) (hf : ∀ a, Q a → Allows o I (f a) R) :
    Allows o I (m >>= f) R := by
  intro p b p' hp hrun
  obtain ⟨a, q, hfirst, hsecond⟩ := bind_eq_ok hrun
  obtain ⟨hq, ha⟩ := hm p a q hp hfirst
  exact hf a ha q b p' hq hsecond

theorem mono (hm : Allows o I m Q) (h : ∀ a, Q a → Q' a) : Allows o I m Q' := by
  intro p a p' hp hrun
  obtain ⟨hp', ha⟩ := hm p a p' hp hrun
  exact ⟨hp', h a ha⟩

/-- What a step allows for one property of the pass, it allows where it keeps another one as well. -/
theorem along {J : Pass → Prop} (hm : Allows o I m Q) (hkeep : Allows o J m Q') :
    Allows o (fun p => I p ∧ J p) m Q := by
  intro p a p' hp hrun
  obtain ⟨hI, ha⟩ := hm p a p' hp.1 hrun
  exact ⟨⟨hI, (hkeep p a p' hp.2 hrun).1⟩, ha⟩

/-- What a step allows on every pass, it allows where it keeps a property of the pass. -/
theorem upon {J : Pass → Prop} (hm : Allows o (fun _ => True) m Q) (hkeep : Allows o J m Q') :
    Allows o J m Q :=
  fun p a p' hp hrun => ⟨(hkeep p a p' hp hrun).1, (hm p a p' trivial hrun).2⟩

theorem lift {result : Except Fault α} (h : ∀ a, result = .ok a → Q a) :
    Allows o I (Gen.lift result) Q := by
  cases result with
  | ok a => exact pure (h a rfl)
  | error fault => exact throw fault

theorem lifted {result : Except Fault α} : Allows o I (Gen.lift result) (result = .ok ·) :=
  lift fun _ h => h

theorem options : Allows o I Gen.options (· = o) := by
  intro p a p' hp hrun
  obtain ⟨rfl, rfl⟩ := EStateM.Result.ok.inj hrun
  exact ⟨hp, rfl⟩

/-- A step for every item of a list gives a result for every item. -/
theorem mapM {f : α → Gen β} {S : α → β → Prop} {l : List α}
    (h : ∀ a ∈ l, Allows o I (f a) (S a)) : Allows o I (l.mapM f) (List.Forall₂ S l) := by
  induction l with
  | nil =>
    rw [List.mapM_nil]
    exact pure List.Forall₂.nil
  | cons a rest ih =>
    rw [List.mapM_cons]
    refine bind (h a List.mem_cons_self) fun b hb => ?_
    refine bind (ih fun c hc => h c (List.mem_cons_of_mem a hc)) fun bs hbs => ?_
    exact pure (List.Forall₂.cons hb hbs)

end Allows

/-! ## Total correctness -/

/-- A step does not fail on a pass, and its result and the pass behind it have a property. -/
def Meets (o : Options) (m : Gen α) (p : Pass) (Q : α → Pass → Prop) : Prop :=
  ∃ a p', m o p = .ok a p' ∧ Q a p'

namespace Meets

variable {m : Gen α} {Q Q' : α → Pass → Prop} {R : β → Pass → Prop}

theorem pure {a : α} (h : Q a p) : Meets o (pure a) p Q :=
  ⟨a, p, rfl, h⟩

theorem bind {f : α → Gen β} (hm : Meets o m p Q)
    (hf : ∀ a p', Q a p' → Meets o (f a) p' R) : Meets o (m >>= f) p R := by
  obtain ⟨a, q, hrun, ha⟩ := hm
  obtain ⟨b, p', hrun', hb⟩ := hf a q ha
  refine ⟨b, p', ?_, hb⟩
  rw [bind_apply, hrun]
  exact hrun'

theorem mono (hm : Meets o m p Q) (h : ∀ a p', Q a p' → Q' a p') : Meets o m p Q' := by
  obtain ⟨a, p', hrun, ha⟩ := hm
  exact ⟨a, p', hrun, h a p' ha⟩

theorem lift {a : α} (h : Q a p) : Meets o (Gen.lift (.ok a)) p Q :=
  ⟨a, p, rfl, h⟩

theorem onPass {step : Pass → Except Fault α × Pass} {a : α} (hp : p.isActive = true)
    (hstep : (step p).1 = .ok a) (h : Q a (step p).2) : Meets o (Gen.onPass step) p Q := by
  refine ⟨a, (step p).2, ?_, h⟩
  rw [onPass_apply step hp, hstep]

end Meets

end BlockScript.Gen
