/-
  BlockScript.Proofs.Generate.Lockstep

  Two steps side by side. From passes that match, either both fail with the same fault, or both lead
  to passes that match, with related results. As with invariants, a relation of passes that the few
  steps on a pass keep is kept by every composed step, and the results are equal.
-/
import BlockScript.Proofs.Generate.Composed

namespace BlockScript

namespace Gen

variable {α β γ δ : Type} {M : Pass → Pass → Prop} {o : Options}

/-- What two steps come to: the same fault, or related results and passes that match. -/
inductive Outcome (M : Pass → Pass → Prop) (Q : α → β → Prop) :
    EStateM.Result Fault Pass α → EStateM.Result Fault Pass β → Prop
  | ok {a : α} {b : β} {p q : Pass} (hpass : M p q) (h : Q a b) : Outcome M Q (.ok a p) (.ok b q)
  | error (fault : Fault) (p q : Pass) : Outcome M Q (.error fault p) (.error fault q)

/-- Two steps go side by side: from passes that match they come to related outcomes. -/
def Lockstep (M : Pass → Pass → Prop) (o : Options) (m : Gen α) (m' : Gen β) (Q : α → β → Prop) :
    Prop :=
  ∀ p q, M p q → Outcome M Q (m o p) (m' o q)

namespace Lockstep

variable {m : Gen α} {m' : Gen β} {Q Q' : α → β → Prop} {R : γ → δ → Prop}

theorem pure {a : α} {b : β} (h : Q a b) : Lockstep M o (pure a) (pure b) Q :=
  fun _ _ hpass => .ok hpass h

theorem throw (fault : Fault) : Lockstep M o (throw fault : Gen α) (throw fault : Gen β) Q :=
  fun p q _ => .error fault p q

theorem bind {f : α → Gen γ} {f' : β → Gen δ} (hm : Lockstep M o m m' Q)
    (hf : ∀ a b, Q a b → Lockstep M o (f a) (f' b) R) : Lockstep M o (m >>= f) (m' >>= f') R := by
  intro p q hpass
  rw [bind_apply, bind_apply]
  have hfirst := hm p q hpass
  generalize m o p = result, m' o q = result' at hfirst
  -- The second steps run on both sides or on neither.
  cases hfirst with
  | ok hpass' h => exact hf _ _ h _ _ hpass'
  | error fault p' q' => exact .error fault p' q'

theorem mono (hm : Lockstep M o m m' Q) (h : ∀ a b, Q a b → Q' a b) : Lockstep M o m m' Q' := by
  intro p q hpass
  have hboth := hm p q hpass
  generalize m o p = result, m' o q = result' at hboth ⊢
  cases hboth with
  | ok hpass' hab => exact .ok hpass' (h _ _ hab)
  | error fault p' q' => exact .error fault p' q'

theorem options : Lockstep M o Gen.options Gen.options fun a b => a = o ∧ b = o :=
  fun _ _ hpass => .ok hpass ⟨rfl, rfl⟩

/-- What goes side by side with a step that does nothing has the result of that. -/
theorem pure_right {b : β} (hm : Lockstep M o m (Pure.pure b) Q) :
    Lockstep M o m (Pure.pure b) fun a b' => b' = b ∧ Q a b := by
  intro p q hpass
  have hboth : Outcome M Q (m o p) (.ok b q) := hm p q hpass
  change Outcome M _ (m o p) (.ok b q)
  generalize m o p = result at hboth ⊢
  cases hboth with
  | ok hpass' h => exact .ok hpass' ⟨rfl, h⟩

/-- Steps for every item of a list give a result for every item. -/
theorem mapM {f : γ → Gen α} {f' : γ → Gen β} {l : List γ}
    (h : ∀ c ∈ l, Lockstep M o (f c) (f' c) Q) :
    Lockstep M o (l.mapM f) (l.mapM f')
      fun as bs => as.length = l.length ∧ List.Forall₂ Q as bs := by
  induction l with
  | nil =>
    rw [List.mapM_nil, List.mapM_nil]
    exact pure ⟨rfl, .nil⟩
  | cons c rest ih =>
    rw [List.mapM_cons, List.mapM_cons]
    apply (h c List.mem_cons_self).bind
    intro a b hab
    apply (ih fun d hd => h d (List.mem_cons_of_mem c hd)).bind
    exact fun as bs hrest => pure ⟨congrArg (· + 1) hrest.1, .cons hab hrest.2⟩

/-- What the first of the two steps allows is so of its result. -/
theorem allows {I : Pass → Prop} {P : α → Prop} (hm : Lockstep M o m m' Q) (hP : Allows o I m P)
    (hI : ∀ p q, M p q → I p) : Lockstep M o m m' fun a b => Q a b ∧ P a := by
  intro p q hpass
  have hboth := hm p q hpass
  -- What `hP` says is about a run of the first step that does not fail.
  cases hrun : m o p with
  | ok a p' =>
    rw [hrun] at hboth
    generalize m' o q = result' at hboth ⊢
    cases hboth with
    | ok hpass' hab => exact .ok hpass' ⟨hab, (hP p a p' (hI p q hpass) hrun).2⟩
  | error fault p' =>
    rw [hrun] at hboth
    generalize m' o q = result' at hboth ⊢
    cases hboth with
    | error _ _ q' => exact .error fault p' q'

/-- A step that leaves the pass alone has nothing to go side by side with. -/
theorem of_meets {P : β → Prop} (a : α) (h : ∀ q, Meets o m' q fun b q' => q' = q ∧ P b) :
    Lockstep M o (Pure.pure a) m' fun a' b => a' = a ∧ P b := by
  intro p q hpass
  obtain ⟨b, _, hrun, rfl, hb⟩ := h q
  rw [hrun]
  exact .ok hpass ⟨rfl, hb⟩

end Lockstep

end Gen

/-! ## Passes that match -/

/-- A relation of passes that the steps on a pass keep, with the same answers on both sides, apart
    from the names of variables and from definitions. -/
structure Pass.IsAligned (M : Pass → Pass → Prop) : Prop where
  isActive : ∀ p q, M p q → p.isActive = q.isActive
  record : ∀ p q entry, M p q → M (p.record entry) (q.record entry)
  procedureName : ∀ p q name, M p q →
    (p.name name .procedure).1 = (q.name name .procedure).1 ∧
      M (p.name name .procedure).2 (q.name name .procedure).2
  provide : ∀ p q indent name template, M p q →
    (p.provide indent name template).1 = (q.provide indent name template).1 ∧
      M (p.provide indent name template).2 (q.provide indent name template).2

/-- The same, with the names of variables and definitions. -/
structure Pass.IsMatching (M : Pass → Pass → Prop) : Prop extends Pass.IsAligned M where
  name : ∀ p q name category, M p q → (p.name name category).1 = (q.name name category).1 ∧
    M (p.name name category).2 (q.name name category).2
  define : ∀ p q name text, M p q → M (p.define name text) (q.define name text)
  procedureName p q source h := name p q source .procedure h

namespace Gen

variable {α : Type} {M : Pass → Pass → Prop} {o : Options}

/-- Steps on passes that match, if they fail alike or come to related answers. -/
theorem Lockstep.onPass {β : Type} {Q : α → β → Prop}
    {step : Pass → Except Fault α × Pass} {step' : Pass → Except Fault β × Pass}
    (hactive : ∀ p q, M p q → p.isActive = q.isActive)
    (h : ∀ p q, M p q →
      (∃ fault, (step p).1 = .error fault ∧ (step' q).1 = .error fault) ∨
      ∃ a b, (step p).1 = .ok a ∧ (step' q).1 = .ok b ∧ Q a b ∧ M (step p).2 (step' q).2) :
    Lockstep M o (Gen.onPass step) (Gen.onPass step') Q := by
  intro p q hpass
  by_cases hp : p.isActive = true
  · have hq : q.isActive = true := hactive p q hpass ▸ hp
    rw [onPass_apply step hp, onPass_apply step' hq]
    rcases h p q hpass with ⟨fault, hfault, hfault'⟩ | ⟨a, b, ha, hb, hab, hpass'⟩
    · rw [hfault, hfault']
      exact .error fault _ _
    · rw [ha, hb]
      exact .ok hpass' hab
  · have hq : ¬ q.isActive = true := hactive p q hpass ▸ hp
    rw [onPass_of_not_active step hp, onPass_of_not_active step' hq]
    exact .error .noPass p q

/-- Steps on passes that match, if they answer the same. -/
theorem Lockstep.onPass_eq (hM : Pass.IsAligned M) {step step' : Pass → Except Fault α × Pass}
    (h : ∀ p q, M p q → (step p).1 = (step' q).1 ∧ M (step p).2 (step' q).2) :
    Lockstep M o (Gen.onPass step) (Gen.onPass step') Eq := by
  apply Lockstep.onPass hM.isActive
  intro p q hpass
  obtain ⟨hanswer, hpass'⟩ := h p q hpass
  cases ha : (step p).1 with
  | error fault => exact Or.inl ⟨fault, rfl, hanswer ▸ ha⟩
  | ok a => exact Or.inr ⟨a, a, rfl, hanswer ▸ ha, rfl, hpass'⟩

/-- From passes that match, a composed step comes to the same on both sides. -/
theorem Composed.lockstep (hM : Pass.IsMatching M) {m : Gen α} (h : m.Composed) :
    Lockstep M o m m Eq := by
  -- Equal results go into equal second steps, so the hypothesis for those applies.
  induction h with
  | pure a => exact .pure rfl
  | throw fault => exact .throw fault
  | options => exact Lockstep.options.mono fun _ _ h => h.1.trans h.2.symm
  | requirePass => exact .onPass_eq hM.toIsAligned fun p q hpass => ⟨rfl, hpass⟩
  | record entry => exact .onPass_eq hM.toIsAligned fun p q hpass => ⟨rfl, hM.record p q entry hpass⟩
  | name name category => exact .onPass_eq hM.toIsAligned fun p q hpass => hM.name p q name category hpass
  | provide indent name template =>
    exact .onPass_eq hM.toIsAligned fun p q hpass => hM.provide p q indent name template hpass
  | define name text => exact .onPass_eq hM.toIsAligned fun p q hpass => ⟨rfl, hM.define p q name text hpass⟩
  | bind hm hf ihm ihf =>
    apply ihm.bind
    rintro a _ rfl
    exact ihf a

/-! ## Two settings -/

/-- A step under settings of its own, whatever settings it is run with. -/
def under (o : Options) (m : Gen α) : Gen α :=
  fun _ => m o

/-- A step on the pass reads no settings. -/
theorem under_onPass (o : Options) (step : Pass → Except Fault α × Pass) :
    (onPass step).under o = onPass step := by
  funext o' p
  change onPass step o p = onPass step o' p
  by_cases hp : p.isActive = true
  · rw [onPass_apply step hp, onPass_apply step hp]
  · rw [onPass_of_not_active step hp, onPass_of_not_active step hp]

/-- Two steps go side by side, each under settings of its own. -/
def Abreast {α β : Type} (M : Pass → Pass → Prop) (o o' : Options) (m : Gen α) (m' : Gen β)
    (Q : α → β → Prop) : Prop :=
  Lockstep M o m (m'.under o') Q

namespace Abreast

variable {α β γ δ : Type} {M : Pass → Pass → Prop} {o o' : Options} {m : Gen α} {m' : Gen β}
  {Q Q' : α → β → Prop} {R : γ → δ → Prop}

theorem pure {a : α} {b : β} (h : Q a b) : Abreast M o o' (pure a) (pure b) Q :=
  Lockstep.pure h

theorem throw (fault : Fault) :
    Abreast M o o' (throw fault : Gen α) (throw fault : Gen β) Q :=
  Lockstep.throw fault

theorem bind {f : α → Gen γ} {f' : β → Gen δ} (hm : Abreast M o o' m m' Q)
    (hf : ∀ a b, Q a b → Abreast M o o' (f a) (f' b) R) : Abreast M o o' (m >>= f) (m' >>= f') R :=
  Lockstep.bind hm hf

theorem mono (hm : Abreast M o o' m m' Q) (h : ∀ a b, Q a b → Q' a b) : Abreast M o o' m m' Q' :=
  Lockstep.mono hm h

theorem options : Abreast M o o' Gen.options Gen.options fun a b => a = o ∧ b = o' :=
  fun _ _ hpass => .ok hpass ⟨rfl, rfl⟩

theorem lift (result : Except Fault α) : Abreast M o o' (Gen.lift result) (Gen.lift result) Eq := by
  cases result with
  | ok a => exact pure rfl
  | error fault => exact throw fault

theorem under_mapM (f' : γ → Gen β) (l : List γ) :
    (l.mapM f').under o' = l.mapM fun c => (f' c).under o' := by
  induction l with
  | nil => rfl
  | cons c rest ih =>
    rw [List.mapM_cons, List.mapM_cons, ← ih]
    rfl

/-- Steps for every item of a list give a result for every item. -/
theorem mapM {f : γ → Gen α} {f' : γ → Gen β} {l : List γ}
    (h : ∀ c ∈ l, Abreast M o o' (f c) (f' c) Q) :
    Abreast M o o' (l.mapM f) (l.mapM f')
      fun as bs => as.length = l.length ∧ List.Forall₂ Q as bs := by
  rw [Abreast, under_mapM]
  exact Lockstep.mapM h

/-- What the first of the two steps allows is so of its result. -/
theorem allows {I : Pass → Prop} {P : α → Prop} (hm : Abreast M o o' m m' Q) (hP : Allows o I m P)
    (hI : ∀ p q, M p q → I p) : Abreast M o o' m m' fun a b => Q a b ∧ P a :=
  Lockstep.allows hm hP hI

/-- Beside a step that leaves the pass alone nothing need be done. -/
theorem of_meets {P : β → Prop} (a : α) (h : ∀ q, Meets o' m' q fun b q' => q' = q ∧ P b) :
    Abreast M o o' (Pure.pure a) m' fun a' b => a' = a ∧ P b :=
  Lockstep.of_meets a h

theorem onPass {step : Pass → Except Fault α × Pass} {step' : Pass → Except Fault β × Pass}
    (hactive : ∀ p q, M p q → p.isActive = q.isActive)
    (h : ∀ p q, M p q →
      (∃ fault, (step p).1 = .error fault ∧ (step' q).1 = .error fault) ∨
      ∃ a b, (step p).1 = .ok a ∧ (step' q).1 = .ok b ∧ Q a b ∧ M (step p).2 (step' q).2) :
    Abreast M o o' (Gen.onPass step) (Gen.onPass step') Q := by
  rw [Abreast, under_onPass]
  exact Lockstep.onPass hactive h

end Abreast

theorem Abreast.onPass_eq (hM : Pass.IsAligned M) {o' : Options}
    {step step' : Pass → Except Fault α × Pass}
    (h : ∀ p q, M p q → (step p).1 = (step' q).1 ∧ M (step p).2 (step' q).2) :
    Abreast M o o' (Gen.onPass step) (Gen.onPass step') Eq := by
  rw [Abreast, under_onPass]
  exact Lockstep.onPass_eq hM h

theorem Abreast.name (hM : Pass.IsMatching M) {o' : Options} (name : String) (category : Category) :
    Abreast M o o' (Gen.onPass fun p => p.name name category)
      (Gen.onPass fun p => p.name name category) Eq :=
  .onPass_eq hM.toIsAligned fun p q hpass => hM.name p q name category hpass

theorem Abreast.procedureName (hM : Pass.IsAligned M) {o' : Options} (name : String) :
    Abreast M o o' (Gen.procedureName name) (Gen.procedureName name) Eq :=
  .onPass_eq hM fun p q hpass => hM.procedureName p q name hpass

/-- Steps that go side by side and come to the same may be put together, also under two settings. As
    for helpers, the settings have to agree in the indent. -/
theorem Abreast.congruence (hM : Pass.IsAligned M) {o' : Options}
    (hindent : o.indentText = o'.indentText) :
    Congruence (fun a b => a = o ∧ b = o') fun m m' => Abreast M o o' m m' Eq where
  pure _ := .pure rfl
  throw fault _ := .throw fault
  wrapped _ _ _ _ _ _ := .lift _
  bind hm hf := hm.bind fun a _ hab => hab ▸ hf a
  options hf := hf o o' ⟨rfl, rfl⟩
  requirePass := .onPass_eq hM fun _ _ hpass => ⟨rfl, hpass⟩
  record entry := .onPass_eq hM fun p q hpass => ⟨rfl, hM.record p q entry hpass⟩
  call source _ _ h := (Abreast.procedureName hM source).bind fun name _ hname => hname ▸
    h.bind fun arguments _ harguments => harguments ▸ .pure rfl
  routine routine arguments _ := by
    have hprovide : Lockstep M o
        (Gen.onPass fun p => p.provide o.indentText routine.name routine.template)
        ((Gen.onPass fun p => p.provide o'.indentText routine.name routine.template).under o')
        Eq := by
      rw [hindent, under_onPass]
      exact .onPass_eq hM fun p q hpass => hM.provide p q _ _ _ hpass
    have hhelper : Abreast M o o' (Gen.helper routine.name routine.template)
        (Gen.helper routine.name routine.template) Eq := hprovide
    apply hhelper.bind
    rintro name _ rfl
    exact .pure rfl

end Gen

end BlockScript
