/-
  BlockScript.Proofs.Generate.Mirroring

  Passes that differ in their logs only. No step looks at the log, so what records, and of which
  blocks, makes no difference to a program.
-/
import BlockScript.Proofs.Generate.Lockstep
import BlockScript.Proofs.Session.Isolation

namespace BlockScript

open Gen (Abreast Lockstep)

/-! ## Passes that differ in their logs -/

/-- Two passes in progress that differ in their logs only. -/
structure Pass.Mirrors (p q : Pass) : Prop where
  isActive : p.isActive = true
  stage : p.stage = q.stage
  registry : p.registry = q.registry

theorem Pass.isMatching_mirrors : Pass.IsMatching Pass.Mirrors where
  isActive p q h := by rw [Pass.isActive, Pass.isActive, h.stage]
  record _ _ _ h := ⟨h.isActive, h.stage, h.registry⟩
  name p q name category h := by
    have hnames : p.names = q.names := congrArg Registry.names h.registry
    have hregistry : ∀ table, ({ p.registry with names := table } : Registry) =
        { q.registry with names := table } := fun table => by rw [h.registry]
    rw [Pass.name, Pass.name, hnames]
    exact ⟨rfl, h.isActive, h.stage, hregistry _⟩
  provide p q indent name template h := by
    rw [Pass.provide, Pass.provide, h.registry]
    exact ⟨rfl, h.isActive, h.stage, rfl⟩
  define p q name text h := by
    have hdefinitions : p.definitions = q.definitions := congrArg Registry.definitions h.registry
    refine ⟨h.isActive, h.stage, ?_⟩
    simp only [Pass.define, hdefinitions, h.registry]

namespace Gen

variable {α β : Type} {o : Options} {m m' : Gen α} {Q : α → α → Prop}

/-- Steps on passes that differ in their logs may be put together. -/
theorem mirrors_congruence (o : Options) : Congruence (fun a b => a = o ∧ b = o)
    fun m m' => Lockstep Pass.Mirrors o m m' Eq :=
  Abreast.congruence Pass.isMatching_mirrors.toIsAligned rfl

theorem mirrors_name (o : Options) (name : String) (category : Category) :
    Lockstep Pass.Mirrors o (onPass fun p => p.name name category)
      (onPass fun p => p.name name category) Eq :=
  Abreast.name Pass.isMatching_mirrors name category

theorem mirrors_procedureName (o : Options) (source : String) :
    Lockstep Pass.Mirrors o (Gen.procedureName source) (Gen.procedureName source) Eq :=
  Abreast.procedureName Pass.isMatching_mirrors.toIsAligned source

theorem mirrors_define (o : Options) (name text : String) :
    Lockstep Pass.Mirrors o (Gen.define name text) (Gen.define name text) Eq :=
  .onPass_eq Pass.isMatching_mirrors.toIsAligned fun p q hpass =>
    ⟨rfl, Pass.isMatching_mirrors.define p q name text hpass⟩

/-- Whatever is recorded on the two sides makes no difference. -/
theorem mirrors_records (o : Options) (entry entry' : Record) :
    Lockstep Pass.Mirrors o (Gen.record entry) (Gen.record entry') Eq :=
  .onPass_eq Pass.isMatching_mirrors.toIsAligned fun _ _ hpass =>
    ⟨rfl, hpass.isActive, hpass.stage, hpass.registry⟩

/-- A record on one side makes no difference. -/
theorem Lockstep.record_left {m : Gen α} {m' : Gen β} {Q : α → β → Prop} (entry : Record)
    (h : Lockstep Pass.Mirrors o m m' Q) :
    Lockstep Pass.Mirrors o (do Gen.record entry; m) m' Q := by
  intro p q hpass
  have hrecord : Gen.record entry o p = .ok () (p.record entry) := onPass_apply _ hpass.isActive
  rw [bind_apply, hrecord]
  exact h _ q ⟨hpass.isActive, hpass.stage, hpass.registry⟩

/-- Neither does the question whether a pass is in progress. -/
theorem Lockstep.requirePass_left {m : Gen α} {m' : Gen β} {Q : α → β → Prop}
    (h : Lockstep Pass.Mirrors o m m' Q) :
    Lockstep Pass.Mirrors o (do Gen.requirePass; m) m' Q := by
  intro p q hpass
  have hrequire : Gen.requirePass o p = .ok () p := onPass_apply _ hpass.isActive
  rw [bind_apply, hrequire]
  exact h p q hpass

end Gen

/-! ## Programs -/

/-- Workspaces with the same variables come to the same program, or to the same fault, if the passes
    over their blocks differ in their logs only. -/
theorem Workspace.programText_of_mirrors {w w' : Workspace} {o : Options}
    (hvariables : w.variableNames = w'.variableNames)
    (hmain : Lockstep Pass.Mirrors o (Session.mainText w.blocks) (Session.mainText w'.blocks) Eq) :
    w.programText o = w'.programText o := by
  let start : Pass := .start (.new reservedWords o.variablePrefix?) w.variableNames
  have hstart : start.Mirrors start := ⟨rfl, rfl, rfl⟩
  have hprogram : Lockstep Pass.Mirrors o (Session.program w) (Session.program w') Eq := by
    rw [Session.program, Session.program]
    apply hmain.bind
    rintro text _ rfl
    apply Lockstep.onPass_eq Pass.isMatching_mirrors.toIsAligned
    intro p q hpass
    have hdefinitions : p.definitions = q.definitions :=
      congrArg Registry.definitions hpass.registry
    have hnames : p.names = q.names := congrArg Registry.names hpass.registry
    rw [Pass.finish, Pass.finish, hpass.stage]
    split
    · exact ⟨rfl, hpass⟩
    · rw [hdefinitions, hnames]
      exact ⟨rfl, rfl, rfl, rfl⟩
  have hboth := hprogram start start hstart
  rw [programText_eq, programText_eq, ← hvariables]
  change Session.answer (Session.program w o start) = Session.answer (Session.program w' o start)
  generalize Session.program w o start = result, Session.program w' o start = result' at hboth
  cases hboth with
  | error fault => rfl
  | ok _ h => rw [Session.answer, Session.answer, h]

end BlockScript
