/-
  BlockScript.Proofs.Generate.Observed

  Runs with an observer. Behind the rule of every block the observer is told of the block and of what
  its rule gave; it may look at the pass, and it may stop the run. An observer that does nothing
  changes nothing. One that stops the run where something is not so tells whether it is so throughout:
  it is if the run comes to what it comes to without the observer.

  What is so throughout is shown of the rules alone, from any pass to one that leads to the pass behind
  the run, and then holds at every block.
-/
import BlockScript.Proofs.Name.Emitted

namespace BlockScript

/-- What is done behind the rule of a block, with what the rule gave. -/
abbrev Observer : Type :=
  Site → Option Code → Gen Unit

/-! ## Runs -/

/-- The code of a block, with a step behind its rule. -/
def Site.observed (observe : Option Code → Gen Unit) (site : Site) (alone : Bool) : Gen Code := do
  Gen.requirePass
  if !site.head.enabled then site.passedOver alone
  else
    let result ← site.rule
    observe result
    site.finished alone result

namespace Block

mutual

/-- The code of a block, with an observer behind its rule and behind those of all its inputs. -/
def observed (observe : Observer) (attached alone : Bool) : Block → Gen Code
  | mk head values statements next =>
    Site.observed (observe ((mk head values statements next).site attached))
      ⟨head, attached, observedInputs observe values, observedInputs observe statements,
        observedInput observe next⟩ alone

/-- The blocks in slots with the steps that yield their code in a run with an observer. -/
def observedInputs (observe : Observer) : Slots → List (String × Option Input)
  | [] => []
  | (name, link) :: rest => (name, observedInput observe link) :: observedInputs observe rest

/-- A connected block with the step that yields its code in a run with an observer. -/
def observedInput (observe : Observer) : Option Block → Option Input
  | none => none
  | some b => some ⟨b, observed observe true false b⟩

end

/-- The line of a block that nothing holds. -/
def observedLine (observe : Observer) (b : Block) : Gen (Option String) := do
  let code ← b.observed observe false false
  b.lineOf code.text

end Block

/-- The main text of a workspace in a run with an observer. -/
def Session.observedText (observe : Observer) (blocks : List Block) : Gen String := do
  let lines ← blocks.mapM (Block.observedLine observe)
  return Text.join "\n" (lines.filterMap fun line => line)

/-! ## Side by side -/

namespace Block

open Gen (Congruence)

/-- A block as its rule sees it in a run with an observer. -/
def observedSite (observe : Observer) (attached : Bool) (b : Block) : Site :=
  ⟨b.head, attached, observedInputs observe b.values, observedInputs observe b.statements,
    observedInput observe b.next⟩

variable {observe : Observer}

theorem observed_eq (attached alone : Bool) (b : Block) :
    b.observed observe attached alone =
      (b.observedSite observe attached).observed (observe (b.site attached)) alone := by
  cases b
  rfl

theorem inSlot_observedInputs (slots : Slots) (name : String) :
    Site.inSlot (observedInputs observe slots) name =
      (inSlot slots name).map fun c => ⟨c, c.observed observe true false⟩ := by
  induction slots with
  | nil => rfl
  | cons slot rest ih =>
    obtain ⟨slotName, link⟩ := slot
    rw [Site.inSlot] at ih ⊢
    rw [inSlot] at ih ⊢
    rw [observedInputs, List.lookup_cons, List.lookup_cons]
    cases name == slotName with
    | true => cases link <;> rfl
    | false => exact ih

theorem map_fst_observedInputs (slots : Slots) :
    (observedInputs observe slots).map (·.1) = slots.map (·.1) := by
  induction slots with
  | nil => rfl
  | cons slot rest ih => exact congrArg (slot.1 :: ·) ih

/-- An observer changes nothing about the comments of the inputs. -/
theorem inputComments_observedInputs (slots : Slots) :
    Site.inputComments (observedInputs observe slots) = Site.inputComments (inputs slots) := by
  apply Site.inputComments_congr
  induction slots with
  | nil => rfl
  | cons slot rest ih =>
    obtain ⟨name, link⟩ := slot
    cases link with
    | none => exact ih
    | some c => exact congrArg (Site.nestedComments c :: ·) ih

variable {R : {α : Type} → Gen α → Gen α → Prop}

/-- What is in a slot goes with what an observer sees there. -/
theorem rel_inSlot_observed {slots : Slots} {name : String}
    (h : ∀ c, inSlot slots name = some c →
      R (c.code true false) (c.observed observe true false)) :
    Option.Rel (Input.Related R) (Site.inSlot (inputs slots) name)
      (Site.inSlot (observedInputs observe slots) name) := by
  rw [inSlot_inputs, inSlot_observedInputs]
  cases hc : inSlot slots name with
  | none => exact .none
  | some c => exact .some ⟨rfl, h c hc⟩

variable (h : Congruence Eq R) (hname : ∀ name, R (Gen.variableName name) (Gen.variableName name))
  (hprocedure : ∀ s t, Site.Matched Eq R s t →
    (∀ code, R (s.complete code false) (t.complete code false)) →
    R s.defineProcedure t.defineProcedure)
  (hobserve : ∀ (b : Block) attached (m : Gen (Option Code)), R (b.site attached).rule m →
    R (b.site attached).rule (do
      let result ← m
      observe (b.site attached) result
      pure result))
include h hname hprocedure hobserve

/-- The code of a block goes with its code in a run with an observer, if a rule goes with a rule and
    the observer behind it. -/
theorem observed_related (b : Block) : ∀ attached alone,
    R (b.code attached alone) (b.observed observe attached alone) := by
  induction b using forall_of_children with
  | h b ih =>
    intro attached alone
    let s := b.site attached
    let t := b.observedSite observe attached
    have hvalues : ∀ name, Option.Rel (Input.Related R) (Site.inSlot s.values name)
        (Site.inSlot t.values name) :=
      fun name => rel_inSlot_observed fun c hc =>
        ih c (mem_children_of_inSlot_values hc) true false
    have hstatements : ∀ name, Option.Rel (Input.Related R) (Site.inSlot s.statements name)
        (Site.inSlot t.statements name) :=
      fun name => rel_inSlot_observed fun c hc =>
        ih c (mem_children_of_inSlot_statements hc) true false
    have hnext : Option.Rel (Input.Related R) s.next t.next := by
      change Option.Rel _ (input b.next) (observedInput observe b.next)
      cases hc : b.next with
      | none => exact .none
      | some c => exact .some ⟨rfl, ih c (mem_children_of_next hc) true false⟩
    have hnames : s.values.map (·.1) = t.values.map (·.1) :=
      (map_fst_inputs _).trans (map_fst_observedInputs _).symm
    have hchains : s.statements.map (·.1) = t.statements.map (·.1) :=
      (map_fst_inputs _).trans (map_fst_observedInputs _).symm
    have hsite : Site.Matched Eq R s t :=
      { kind := rfl, record := fun _ _ _ => h.record _, fields := fun _ _ => rfl, mutation := rfl
        hooks := .of_id rfl
        value := fun name => Site.value_related h (hvalues name)
        chain := fun name => Site.chain_related h (fun _ _ ho => ho) (hstatements name)
        hasSlot := Site.hasSlot_congr hnames hchains
        slots := Site.slotCount_congr hnames hchains }
    have hcomments : R s.comments t.comments :=
      Site.comments_related h (fun _ _ ho => congrArg Options.commentWrap ho) rfl rfl
        (inputComments_observedInputs b.values).symm
    have hfollowing := Site.nextCode_related h hnext
    have hcomplete := fun code alone => Site.complete_related h hcomments hfollowing code alone
    have hrule : R s.rule t.rule := hsite.rule h (fun _ _ ho => ho) (fun _ => hname _) fun _ =>
      hprocedure s t hsite fun code => hcomplete code false
    rw [code_eq_site_code, Site.code_eq, observed_eq, Site.observed]
    apply h.bind h.requirePass
    intro _
    change R (if !s.head.enabled then _ else _) (if !s.head.enabled then _ else _)
    split
    · exact hsite.toPaired.passedOver h hfollowing alone
    · -- The observer stands between the rule and what becomes of its code.
      have hboth := h.bind (hobserve b attached t.rule hrule) fun result =>
        Site.finished_related h (fun _ _ ho => ho) hsite.kind hsite.hooks rfl
          (fun code => hcomplete code alone) result
      simpa only [bind_assoc, pure_bind] using hboth

/-- The main text of a workspace goes with its main text in a run with an observer. -/
theorem observedText_related (blocks : List Block) :
    R (Session.mainText blocks) (Session.observedText observe blocks) := by
  apply h.bind
  · apply h.mapM
    intro b _
    rw [topLevelLine_eq]
    apply h.bind (observed_related h hname hprocedure hobserve b false false)
    exact fun code => lineOf_related h (fun _ _ ho => ho) rfl (.of_id rfl) rfl _
  · exact fun lines => h.pure _

end Block

/-- An observer that does nothing changes nothing. -/
theorem Session.observedText_idle (blocks : List Block) :
    observedText (fun _ _ => pure ()) blocks = mainText blocks := by
  refine (Block.observedText_related Gen.Congruence.eq (fun _ => rfl) ?_ ?_ blocks).symm
  · intro s t h hcomplete
    exact h.defineProcedure .eq (fun _ _ ho => ho) (fun _ _ _ _ => rfl) hcomplete (fun _ => rfl)
      fun _ _ => rfl
  · intro b attached m h
    rw [h]
    simp only [pure_bind, bind_pure]

/-! ## Checks -/

namespace Pass

/-- Whether a pass leads to another one: the other has whatever this one has for good. -/
def LeadsTo (p q : Pass) : Prop :=
  ∀ I, IsInvariant I → I p → I q

theorem LeadsTo.refl (p : Pass) : p.LeadsTo p :=
  fun _ _ hp => hp

end Pass

open Classical in
/-- An observer that stops the run if something is not so of a block, of what its rule gave and of the
    pass behind the rule. -/
noncomputable def Observer.ensuring (A : Site → Option Code → Pass → Prop) : Observer :=
  fun site result => do
    if A site result (← get) then pure () else throw .noPass

theorem Observer.ensuring_apply {A : Site → Option Code → Pass → Prop} {site : Site}
    {result : Option Code} {o : Options} {p : Pass} (h : A site result p) :
    Observer.ensuring A site result o p = .ok () p := by
  have hget : (get : Gen Pass) o p = .ok p p := rfl
  rw [Observer.ensuring, Gen.bind_apply, hget]
  simp only [if_pos h]
  rfl

/-- Whether something is so throughout the run over a workspace, at every block of which the rule is
    run: the run with the check comes to what the run comes to. -/
def Workspace.Throughout (w : Workspace) (o : Options) (A : Site → Option Code → Pass → Prop) : Prop :=
  let start : Pass := .start (.new reservedWords o.variablePrefix?) w.variableNames
  Session.observedText (.ensuring A) w.blocks o start = Session.mainText w.blocks o start

namespace Gen

variable {α : Type}

/-- A step that comes to what another one comes to, if the pass behind it leads to a given one. -/
structure Ensured (final : Pass) (m m' : Gen α) : Prop where
  composed : m.Composed
  same : ∀ {o : Options} {p q : Pass} {a : α}, q.LeadsTo final → m o p = .ok a q → m' o p = .ok a q

namespace Ensured

variable {final : Pass}

theorem refl {m : Gen α} (h : m.Composed) : Ensured final m m :=
  ⟨h, fun _ hrun => hrun⟩

theorem bind {β : Type} {m m' : Gen α} {f f' : α → Gen β} (hm : Ensured final m m')
    (hf : ∀ a, Ensured final (f a) (f' a)) : Ensured final (m >>= f) (m' >>= f') where
  composed := .bind hm.composed fun a => (hf a).composed
  same := by
    intro o p r b hfinal hrun
    obtain ⟨a, q, hfirst, hsecond⟩ := bind_eq_ok hrun
    -- What the first pass has for good, the second step keeps.
    have hq : q.LeadsTo final := by
      intro I hI hq
      have hr := (hf a).composed.keeps (o := o) hI q hq
      rw [passAfter_of_ok hsecond] at hr
      exact hfinal I hI hr
    rw [bind_apply, hm.same hq hfirst]
    exact (hf a).same hfinal hsecond

/-- Such steps may be put together. -/
theorem congruence (final : Pass) : Congruence Eq (Ensured final) where
  pure a := refl (.pure a)
  throw fault _ := refl (.throw fault)
  wrapped _ _ _ _ _ _ := refl (.lift _)
  bind := bind
  options hf := bind (refl .options) fun o => hf o o rfl
  requirePass := refl .requirePass
  record entry := refl (.record entry)
  call source _ _ h := bind (refl (.name source .procedure)) fun _ => bind h fun _ => refl (.pure _)
  routine _ _ _ := refl (.bind (.helper _ _) fun _ => .pure _)

/-- A check that what is shown of a step passes. -/
theorem ensuring {m m' : Gen (Option Code)} (h : Ensured final m m') {site : Site}
    {A : Site → Option Code → Pass → Prop}
    (hA : ∀ {o p q result}, q.LeadsTo final → m o p = .ok result q → A site result q) :
    Ensured final m (do
      let result ← m'
      Observer.ensuring A site result
      Pure.pure result) where
  composed := h.composed
  same := by
    intro o p q result hfinal hrun
    rw [bind_apply, h.same hfinal hrun]
    change (Observer.ensuring A site result >>= fun _ => Pure.pure result) o q = _
    rw [bind_apply, Observer.ensuring_apply (hA hfinal hrun)]
    rfl

end Ensured

end Gen

/-- What every rule comes to, on the way to the pass behind a run, is so throughout the run. -/
theorem Workspace.throughout {w : Workspace} {o : Options} {out : String}
    (h : w.programText o = .ok out) {A : Site → Option Code → Pass → Prop}
    (hA : ∀ (b : Block) attached {o' p q result}, q.LeadsTo (w.passBehind o) →
      (b.site attached).rule o' p = .ok result q → A (b.site attached) result q) :
    w.Throughout o A := by
  obtain ⟨main, q, hmain, -⟩ := exists_mainText h
  have hbehind : w.passBehind o = q := Gen.passAfter_of_ok hmain
  have hboth : Gen.Ensured (w.passBehind o) (Session.mainText w.blocks)
      (Session.observedText (.ensuring A) w.blocks) := by
    apply Block.observedText_related (Gen.Ensured.congruence _) fun _ => .refl (.name _ _)
    · intro s t hsite hcomplete
      exact hsite.defineProcedure (Gen.Ensured.congruence _) (fun _ _ ho => ho)
        (fun _ _ parameter _ => .refl (Site.parameterName_composed parameter)) hcomplete
        (fun _ => .refl (.name _ _)) fun name text => .refl (.define name text)
    · exact fun b attached m hrule => hrule.ensuring (hA b attached)
  rw [Throughout, hmain]
  exact hboth.same (hbehind ▸ .refl _) hmain

end BlockScript
