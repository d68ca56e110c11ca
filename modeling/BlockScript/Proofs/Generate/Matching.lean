/-
  BlockScript.Proofs.Generate.Matching

  Passes that differ in the texts of their definitions only, and in these as far as a relation of
  texts allows. No step on a pass looks at the text of a definition, so what the steps answer is the
  same, and such passes stay such passes. At the end the definitions go ahead of the main text; two
  workspaces with related texts, or one under two settings, so come to related programs.
-/
import BlockScript.Proofs.Generate.Lockstep
import BlockScript.Proofs.Generate.Reachable
import BlockScript.Proofs.Session.Isolation

namespace BlockScript

variable {R : String → String → Prop}

/-! ## Definitions -/

namespace Definitions

/-- Definitions under the same keys, with related texts. -/
def Related (R : String → String → Prop) (ds es : Definitions) : Prop :=
  List.Forall₂ (fun d e => d.1 = e.1 ∧ R d.2 e.2) ds es

namespace Related

variable {ds es : Definitions} (h : Definitions.Related R ds es)
include h

theorem hasKey (key : String) : ds.hasKey key = es.hasKey key := by
  induction h with
  | nil => rfl
  | cons hfirst _ ih =>
    simp only [Definitions.hasKey] at ih ⊢
    rw [List.any_cons, List.any_cons, hfirst.1, ih]

theorem set (key : String) {s t : String} (htext : R s t) :
    Definitions.Related R (ds.set key s) (es.set key t) := by
  induction h with
  | nil => exact .cons ⟨rfl, htext⟩ .nil
  | @cons d e ds es hfirst hrest ih =>
    obtain ⟨dkey, dtext⟩ := d
    obtain ⟨ekey, etext⟩ := e
    obtain ⟨rfl, hsame⟩ := hfirst
    rw [Definitions.set, Definitions.set]
    -- The keys are the same, so the definition is replaced at the same place.
    split
    · exact .cons ⟨rfl, htext⟩ hrest
    · exact .cons ⟨rfl, hsame⟩ ih

theorem texts : List.Forall₂ R ds.texts es.texts :=
  List.forall₂_map_left_iff.mpr (List.forall₂_map_right_iff.mpr (h.imp fun _ _ h => h.2))

end Related

end Definitions

/-! ## Passes -/

/-- Two passes that differ in the texts of their definitions only, which are related. -/
structure Pass.Resembles (R : String → String → Prop) (p q : Pass) : Prop where
  stage : p.stage = q.stage
  names : p.registry.names = q.registry.names
  helpers : p.registry.helpers = q.registry.helpers
  log : p.log = q.log
  definitions : p.definitions.Related R q.definitions
  /-- The names are those of a pass without a prefix for variables. -/
  named : p.Named (some "")

namespace Pass.Resembles

variable {p q : Pass}

theorem named_step (h : p.Resembles R q) {naming : Naming} {category : Category}
    (hsound : naming.Sound p.names category) :
    (p.named naming).2.Resembles R (q.named naming).2 where
  stage := h.stage
  names := rfl
  helpers := h.helpers
  log := congrArg (·.recordAll naming.records) h.log
  definitions := h.definitions
  named := h.named.named hsound

theorem define (h : p.Resembles R q) (name : String) {s t : String} (htext : R s t) :
    (p.define name s).Resembles R (q.define name t) where
  stage := h.stage
  names := h.names
  helpers := h.helpers
  log := by
    simp only [Pass.define, h.definitions.hasKey, h.log]
  definitions := h.definitions.set _ htext
  named := h.named.define name s

theorem provide (hR : ∀ s, R s s) (h : p.Resembles R q) (indent : Except Fault String)
    (name : String) (template : List String) :
    (p.provide indent name template).1 = (q.provide indent name template).1 ∧
      (p.provide indent name template).2.Resembles R (q.provide indent name template).2 := by
  have hnamed := (h.named.provide indent name template).1
  simp only [Pass.provide, Registry.provide] at hnamed ⊢
  rw [h.helpers, h.names] at hnamed ⊢
  -- Both sides have the helper or neither has; then the name, and the indent, fail on both or none.
  cases hlookup : q.registry.helpers.lookup name with
  | some emitted =>
    rw [hlookup] at hnamed
    exact ⟨rfl, h.stage, h.names, h.helpers, congrArg (·.recordAll []) h.log, h.definitions, hnamed⟩
  | none =>
    rw [hlookup] at hnamed
    have hlog : ∀ entries, p.log.recordAll entries = q.log.recordAll entries :=
      fun entries => congrArg (·.recordAll entries) h.log
    cases hanswer : (q.registry.names.distinct name .procedure).answer with
    | error fault =>
      simp only [hanswer, true_and] at hnamed ⊢
      exact ⟨h.stage, rfl, rfl, hlog _, h.definitions, hnamed⟩
    | ok emitted =>
      cases indent with
      | error fault =>
        simp only [hanswer, true_and] at hnamed ⊢
        exact ⟨h.stage, rfl, rfl, hlog _, h.definitions, hnamed⟩
      | ok indent =>
        simp only [hanswer, true_and] at hnamed ⊢
        exact ⟨h.stage, rfl, rfl, hlog _, h.definitions.set _ (hR _), hnamed⟩

/-- A fresh pass without a prefix for variables resembles itself. -/
theorem start {names : NameTable} (hnames : names.variablePrefix? = some "")
    (variableNames : VariableNames) :
    (Pass.start names variableNames).Resembles R (.start names variableNames) :=
  ⟨rfl, rfl, rfl, rfl, .nil, (Pass.Reachable.start hnames variableNames).named⟩

end Pass.Resembles

theorem Pass.isMatching_resembles (hR : ∀ s, R s s) : Pass.IsMatching (Pass.Resembles R) where
  isActive p q h := by rw [Pass.isActive, Pass.isActive, h.stage]
  record p q entry h := ⟨h.stage, h.names, h.helpers, congrArg (·.record entry) h.log,
    h.definitions, h.named.record entry⟩
  name p q name category h := by
    have hnames : p.names = q.names := h.names
    have hsound := NameTable.name_sound h.named.remembers name category
    rw [Pass.name, Pass.name, ← hnames]
    exact ⟨rfl, h.named_step hsound⟩
  provide p q indent name template h := h.provide hR indent name template
  define p q name text h := h.define name (hR text)

/-! ## Steps -/

namespace Gen

variable {o o' : Options} {s t : String}

theorem define_abreast (hR : ∀ s, R s s) (name : String) (h : R s t) :
    Abreast (Pass.Resembles R) o o' (Gen.define name s) (Gen.define name t) Eq :=
  .onPass (Pass.isMatching_resembles hR).isActive fun _ _ hpass =>
    Or.inr ⟨(), (), rfl, rfl, rfl, hpass.define name h⟩

/-- The end of a pass: the definitions ahead of the main text. -/
theorem finish_abreast (hR : ∀ s, R s s) (h : ∀ ds es, List.Forall₂ R ds es →
      R (Text.join "\n\n" ds ++ "\n\n\n" ++ s) (Text.join "\n\n" es ++ "\n\n\n" ++ t)) :
    Abreast (Pass.Resembles R) o o' (Gen.onPass fun p => p.finish s)
      (Gen.onPass fun p => p.finish t) R := by
  apply Abreast.onPass (Pass.isMatching_resembles hR).isActive
  intro p q hpass
  have hnamed := hpass.named.finish s
  -- A pass that is finished already fails on both sides.
  by_cases hfinished : p.stage = .finished
  · rw [Pass.finish, Pass.finish, if_pos hfinished, if_pos (hpass.stage ▸ hfinished)]
    exact Or.inl ⟨.passFinished, rfl, rfl⟩
  · rw [Pass.finish, if_neg hfinished] at hnamed ⊢
    rw [Pass.finish, if_neg (hpass.stage ▸ hfinished)]
    have hnames : p.names.reset = q.names.reset := congrArg NameTable.reset hpass.names
    exact Or.inr ⟨_, _, rfl, rfl, h _ _ hpass.definitions.texts, rfl, hnames, rfl, hpass.log, .nil,
      hnamed⟩

end Gen

/-! ## Programs -/

/-- Two passes that go side by side fail alike, or come to programs that are related texts, tidied. -/
theorem Workspace.programText_abreast {M : Pass → Pass → Prop} {w w' : Workspace} {o o' : Options}
    (hprogram : Gen.Abreast M o o' (Session.program w) (Session.program w') R)
    (hstart : M (.start (.new reservedWords o.variablePrefix?) w.variableNames)
      (.start (.new reservedWords o'.variablePrefix?) w'.variableNames)) :
    (∃ fault, w.programText o = .error fault ∧ w'.programText o' = .error fault) ∨
      ∃ s t, w.programText o = .ok (Text.tidy s) ∧ w'.programText o' = .ok (Text.tidy t) ∧ R s t := by
  have hboth : Gen.Outcome M R (Session.program w o _) (Session.program w' o' _) :=
    hprogram _ _ hstart
  rw [w.programText_eq, w'.programText_eq]
  generalize Session.program w o _ = result, Session.program w' o' _ = result' at hboth ⊢
  cases hboth with
  | error fault => exact Or.inl ⟨fault, rfl, rfl⟩
  | ok _ hst => exact Or.inr ⟨_, _, rfl, rfl, hst⟩

end BlockScript
