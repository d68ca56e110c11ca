/-
  BlockScript.Proofs.Helper.Linkage

  Calls of helpers and their definitions. Whatever routine a pass provides, it defines once, under a
  name that no other routine and nothing of the user has.

  The invariant says what every definition of a pass declares: a routine that the pass provides, under
  its emitted name, or a procedure under a name that the pass has emitted.
-/
import BlockScript.Proofs.Comment.Solid
import BlockScript.Proofs.Helper.Declaration
import BlockScript.Proofs.Name.Emitted

namespace BlockScript

open Definitions (helperKey procedureKey)
open Script (isName)

/-! ## Linked passes -/

namespace Pass

/-- Whether a pass provides a routine under an emitted name. -/
def Provides (p : Pass) (routine : Routine) (emitted : String) : Prop :=
  p.registry.helpers.lookup routine.name = some emitted

/-- What a definition of a pass declares: a routine that the pass provides, or a procedure under a
    name that the pass has emitted. -/
inductive Declared (p : Pass) : String × String → Prop
  | routine {routine : Routine} {emitted text : String} (h : p.Provides routine emitted)
      (htext : Declares text emitted routine.parameters) :
      Declared p (helperKey routine.name, text)
  | procedure {name source emitted text : String} {parameters : List String}
      (h : p.Emits .procedure source emitted) (htext : Declares text emitted parameters) :
      Declared p (procedureKey name, text)

/-- The invariant: definitions have keys of their own, every provided routine has one, and every
    definition declares what its key says. -/
structure Linked (p : Pass) : Prop where
  keys : (p.definitions.map (·.1)).Nodup
  named : ∃ lead?, p.Named lead?
  provided : ∀ routine emitted, p.Provides routine emitted →
    p.definitions.hasKey (helperKey routine.name) = true
  declared : ∀ entry ∈ p.definitions, p.Declared entry

end Pass

namespace Registry

variable {r : Registry} {indent : Except Fault String} {name : String} {template : List String}

/-- A request for a helper that is answered finds the helper, or it names and defines a new one. -/
theorem provide_eq_ok {emitted : String} (h : (r.provide indent name template).answer = .ok emitted) :
    (r.helpers.lookup name = some emitted ∧ (r.provide indent name template).registry = r) ∨
    (r.helpers.lookup name = none ∧
      ∃ lead, indent = .ok lead ∧
        (r.provide indent name template).registry.helpers = r.helpers ++ [(name, emitted)] ∧
        (r.provide indent name template).registry.definitions = r.definitions.set (helperKey name)
          (Helper.reindent lead (Helper.instantiate template emitted))) := by
  rw [provide] at h ⊢
  cases hhelper : r.helpers.lookup name with
  | some other =>
    rw [hhelper] at h
    obtain rfl := Except.ok.inj h
    exact Or.inl ⟨rfl, rfl⟩
  | none =>
    rw [hhelper] at h
    dsimp only at h ⊢
    cases hanswer : (r.names.distinct name .procedure).answer with
    | error fault =>
      rw [hanswer] at h
      cases h
    | ok other =>
      rw [hanswer] at h
      cases indent with
      | error fault => cases h
      | ok lead =>
        obtain rfl := Except.ok.inj h
        exact Or.inr ⟨rfl, lead, rfl, rfl, rfl⟩

/-- Helpers keep their names when another one is provided. -/
theorem lookup_provide {key emitted : String} (h : r.helpers.lookup key = some emitted) :
    (r.provide indent name template).registry.helpers.lookup key = some emitted := by
  have hmore : ∀ other, (r.helpers ++ [(name, other)]).lookup key = some emitted := by
    intro other
    rw [List.lookup_append, h]
    rfl
  rw [provide]
  cases r.helpers.lookup name with
  | some other => exact h
  | none =>
    simp only
    cases (r.names.distinct name .procedure).answer with
    | error fault => exact h
    | ok other => cases indent <;> exact hmore other

end Registry

namespace Pass

/-- A request for a helper that is answered leaves a pass as it leaves the registry. -/
theorem provide_eq_ok {p : Pass} {indent : Except Fault String} {name emitted : String}
    {template : List String} (h : (p.provide indent name template).1 = .ok emitted) :
    (p.registry.helpers.lookup name = some emitted ∧
      (p.provide indent name template).2.registry = p.registry) ∨
    (p.registry.helpers.lookup name = none ∧ ∃ lead, indent = .ok lead ∧
      (p.provide indent name template).2.registry.helpers = p.registry.helpers ++ [(name, emitted)] ∧
      (p.provide indent name template).2.definitions = p.definitions.set (helperKey name)
        (Helper.reindent lead (Helper.instantiate template emitted))) :=
  Registry.provide_eq_ok h

/-- A routine that is asked for is provided. -/
theorem provides_of_provide {p : Pass} {indent : Except Fault String} {routine : Routine}
    {emitted : String} (h : (p.provide indent routine.name routine.template).1 = .ok emitted) :
    (p.provide indent routine.name routine.template).2.Provides routine emitted := by
  obtain ⟨hhelper, hsame⟩ | ⟨hnone, lead, -, hhelpers, -⟩ := provide_eq_ok h
  · rw [Provides, hsame]
    exact hhelper
  · rw [Provides, hhelpers, List.lookup_append, hnone]
    exact List.lookup_cons_self

theorem isInvariant_provides (routine : Routine) (emitted : String) :
    IsInvariant (·.Provides routine emitted) where
  record _ _ h := h
  name _ _ _ h := h
  provide _ _ _ _ h := Registry.lookup_provide h
  define _ _ _ h := h

variable {p q : Pass}

theorem Declared.mono {entry : String × String} (h : p.Declared entry)
    (hprovides : ∀ routine emitted, p.Provides routine emitted → q.Provides routine emitted)
    (hemits : ∀ category source emitted, p.Emits category source emitted →
      q.Emits category source emitted) : q.Declared entry := by
  cases h with
  | routine h htext => exact .routine (hprovides _ _ h) htext
  | procedure h htext => exact .procedure (hemits _ _ _ h) htext

/-- A pass that has not begun is linked. -/
theorem linked_start (names : NameTable) (variableNames : VariableNames) :
    (start names variableNames).Linked where
  keys := List.nodup_nil
  named := ⟨names.variablePrefix?, (Reachable.start rfl variableNames).named⟩
  provided _ _ h := by cases h
  declared _ h := absurd h List.not_mem_nil

namespace Linked

/-- Only the registry matters. -/
theorem congr (h : p.Linked) (hsame : q.registry = p.registry) : q.Linked := by
  obtain ⟨stage, registry, log⟩ := q
  obtain rfl : registry = p.registry := hsame
  refine ⟨h.keys, ?_, h.provided, ?_⟩
  · obtain ⟨lead?, hnamed⟩ := h.named
    exact ⟨lead?, hnamed.variablePrefix, hnamed.remembers, hnamed.helpers⟩
  · intro entry hentry
    exact (h.declared entry hentry).mono (fun _ _ h => h) fun _ _ _ h => h

theorem name (h : p.Linked) (name : String) (category : Category) :
    (p.name name category).2.Linked where
  keys := h.keys
  named := h.named.imp fun lead? hnamed => (isInvariant_named lead?).name p name category hnamed
  provided := h.provided
  declared definition hmem := (h.declared definition hmem).mono (fun _ _ h => h)
    fun c source emitted h => (isInvariant_emits c source emitted).name p name category h

/-- A request for a routine that is answered leaves the pass linked, and the routine provided. -/
theorem provide (h : p.Linked) {indent : Except Fault String} {routine : Routine} {emitted : String}
    (hanswer : (p.provide indent routine.name routine.template).1 = .ok emitted) :
    (p.provide indent routine.name routine.template).2.Linked ∧
      (p.provide indent routine.name routine.template).2.Provides routine emitted := by
  obtain ⟨lead?, hnamed⟩ := h.named
  obtain ⟨hnamed', hname⟩ := hnamed.provide indent routine.name routine.template
  have hprovides := fun other name =>
    (isInvariant_provides other name).provide p indent routine.name routine.template
  have hemits := fun category source name =>
    (isInvariant_emits category source name).provide p indent routine.name routine.template
  have hnew := provides_of_provide hanswer
  have hcases := provide_eq_ok hanswer
  -- What is provided is found, or it is named and defined.
  generalize (p.provide indent routine.name routine.template).2 = q at *
  rcases hcases with ⟨hhelper, hsame⟩ | ⟨hnone, lead, -, hhelpers, hdefinitions⟩
  · exact ⟨h.congr hsame, hnew⟩
  · refine ⟨⟨?_, ⟨lead?, hnamed'⟩, ?_, ?_⟩, hnew⟩
    · rw [hdefinitions]
      exact Definitions.nodup_set h.keys
    · intro other name hother
      rw [Provides, hhelpers, List.lookup_append] at hother
      rw [hdefinitions]
      cases hold : p.registry.helpers.lookup other.name with
      | some found => exact Definitions.hasKey_set_of_hasKey (h.provided other found hold)
      | none =>
        rw [hold, Option.none_or] at hother
        have hmem := List.mem_singleton.mp (NameTable.mem_of_lookup_eq_some hother)
        rw [(Prod.mk.inj hmem).1]
        exact Definitions.hasKey_set_self
    · intro entry hentry
      rw [hdefinitions] at hentry
      rcases Definitions.mem_set hentry with rfl | hold
      · exact .routine hnew (routine.declares (hname emitted hanswer) lead)
      · exact (h.declared entry hold).mono hprovides hemits

/-- A procedure under an emitted name is defined. -/
theorem define (h : p.Linked) {name source text : String} {parameters : List String}
    (hname : p.Emits .procedure source name) (htext : Declares text name parameters) :
    (p.define name text).Linked where
  keys := Definitions.nodup_set h.keys
  named := h.named.imp fun _ hnamed => hnamed.define name text
  provided routine emitted hprovides :=
    Definitions.hasKey_set_of_hasKey (h.provided routine emitted hprovides)
  declared entry hentry := by
    rcases Definitions.mem_set hentry with rfl | hold
    · exact .procedure hname htext
    · exact (h.declared entry hold).mono (fun _ _ h => h) fun _ _ _ h => h

end Linked

/-- A definition is under the key of a routine that it declares, or under that of a procedure. -/
theorem Declared.exists_key {entry : String × String} (h : p.Declared entry) :
    (∃ routine emitted, p.Provides routine emitted ∧ Declares entry.2 emitted routine.parameters ∧
      entry.1 = helperKey routine.name) ∨ ∃ name, entry.1 = procedureKey name := by
  cases h with
  | routine h htext => exact Or.inl ⟨_, _, h, htext, rfl⟩
  | procedure h htext => exact Or.inr ⟨_, rfl⟩

/-- The emitted name of a procedure is an identifier. -/
theorem Emits.isName {lead? : Option String} {source emitted : String} (hp : p.Named lead?)
    (h : p.Emits .procedure source emitted) : isName emitted.toList = true := by
  obtain ⟨lead, candidate, hlead, hmemo, rfl⟩ := h
  obtain rfl : "" = lead := Except.ok.inj hlead
  rw [String.empty_append]
  exact hp.remembers _ (NameTable.mem_of_lookup_eq_some hmemo)

/-- The name of a provided routine is emitted for no name of the user. -/
theorem Provides.not_emits (hnames : p.registry.OneNamespace) {routine : Routine} {emitted : String}
    (h : p.Provides routine emitted) {category : Category}
    (hsetting : p.names.prefixFor category = .ok "") (source : String) :
    ¬ p.Emits category source emitted := by
  rintro ⟨lead, candidate, hlead, hmemo, rfl⟩
  obtain rfl : "" = lead := Except.ok.inj (hsetting.symm.trans hlead)
  rw [String.empty_append] at h
  exact hnames.helper_ne _ (NameTable.mem_of_lookup_eq_some h) _ hmemo

/-- Two routines have two emitted names. -/
theorem Provides.routine_eq (hnames : p.registry.OneNamespace) {routine routine' : Routine}
    {emitted : String} (h : p.Provides routine emitted) (h' : p.Provides routine' emitted) :
    routine = routine' := by
  have hnodup : (p.registry.helpers.map (·.2)).Nodup := by
    rw [List.Nodup, List.pairwise_map]
    exact hnames.helpers_ne
  have hentry := List.inj_on_of_nodup_map hnodup (NameTable.mem_of_lookup_eq_some h)
    (NameTable.mem_of_lookup_eq_some h') rfl
  exact Routine.name_inj (Prod.mk.inj hentry).1

/-- A provided routine is declared by one definition and by no other one. -/
theorem Linked.exists_definition (h : p.Linked) (hnames : p.registry.OneNamespace) {routine : Routine}
    {emitted : String} (hprovides : p.Provides routine emitted) :
    ∃ before text after, p.definitions.texts = before ++ text :: after ∧
      Declares text emitted routine.parameters ∧
      ∀ other ∈ before ++ after, ∀ parameters, ¬ Declares other emitted parameters := by
  obtain ⟨lead?, hnamed⟩ := h.named
  have hname : ∀ {routine emitted}, p.Provides routine emitted → isName emitted.toList = true :=
    fun h => hnamed.helpers _ (NameTable.mem_of_lookup_eq_some h)
  obtain ⟨text, hentry⟩ := Definitions.exists_of_hasKey (h.provided routine emitted hprovides)
  obtain ⟨before, after, hdefinitions⟩ := List.append_of_mem hentry
  have hkeys := h.keys
  rw [hdefinitions, List.map_append, List.map_cons, List.nodup_middle, List.nodup_cons,
    ← List.map_append] at hkeys
  refine ⟨before.map (·.2), text, after.map (·.2), ?_, ?_, ?_⟩
  · rw [Definitions.texts, hdefinitions, List.map_append, List.map_cons]
  · obtain ⟨other, name, hother, hdeclares, hkey⟩ | ⟨key, hkey⟩ :=
      (h.declared _ hentry).exists_key
    · obtain rfl := Routine.name_inj (Definitions.helperKey_inj hkey)
      obtain rfl := Option.some.inj (hother.symm.trans hprovides)
      exact hdeclares
    · exact absurd hkey (Definitions.helperKey_ne_procedureKey _ _)
  · rw [← List.map_append]
    intro other hother parameters hdeclares
    obtain ⟨entry, hmem, rfl⟩ := List.mem_map.mp hother
    have hin : entry ∈ p.definitions := by
      rw [hdefinitions]
      exact List.perm_middle.symm.subset (List.mem_cons_of_mem _ hmem)
    -- One name is declared by a text, and one key stands in the definitions.
    cases h.declared entry hin with
    | routine hprovides' hdeclares' =>
      obtain rfl := hdeclares.name_eq hdeclares' (hname hprovides) (hname hprovides')
      obtain rfl := hprovides'.routine_eq hnames hprovides
      exact hkeys.1 (List.mem_map.mpr ⟨_, hmem, rfl⟩)
    | @procedure name source emitted' text' parameters' hemits hdeclares' =>
      obtain rfl := hdeclares.name_eq hdeclares' (hname hprovides) (hemits.isName hnamed)
      exact hprovides.not_emits hnames rfl source hemits

end Pass

/-! ## Steps that link -/

namespace Gen

/-- A request for a routine that does not fail is answered by the pass. -/
theorem helper_eq_ok {o : Options} {p q : Pass} {routine : Routine} {emitted : String}
    (hrun : helper routine.name routine.template o p = .ok emitted q) :
    (p.provide o.indentText routine.name routine.template).1 = .ok emitted ∧
      (p.provide o.indentText routine.name routine.template).2 = q := by
  obtain ⟨o', p', hoptions, hprovide⟩ := bind_eq_ok hrun
  obtain ⟨rfl, rfl⟩ := EStateM.Result.ok.inj hoptions
  exact (onPass_eq_ok hprovide).2


/-- A step that keeps a pass linked, if it does not fail. -/
structure Linking {α : Type} (m : Gen α) : Prop where
  composed : m.Composed
  linked : ∀ {o : Options} {p q : Pass} {a : α}, p.Linked → m o p = .ok a q → q.Linked

namespace Linking

variable {α β : Type}

theorem pure (a : α) : Linking (pure a) where
  composed := .pure a
  linked hp hrun := by
    obtain ⟨-, rfl⟩ := EStateM.Result.ok.inj hrun
    exact hp

theorem options : Linking Gen.options where
  composed := .options
  linked hp hrun := by
    obtain ⟨-, rfl⟩ := EStateM.Result.ok.inj hrun
    exact hp

theorem bind {m : Gen α} {f : α → Gen β} (hm : Linking m) (hf : ∀ a, Linking (f a)) :
    Linking (m >>= f) where
  composed := .bind hm.composed fun a => (hf a).composed
  linked hp hrun := by
    obtain ⟨a, q, hfirst, hsecond⟩ := bind_eq_ok hrun
    exact (hf a).linked (hm.linked hp hfirst) hsecond

/-- A step on the pass, if it leaves the pass linked. -/
theorem onPass {step : Pass → Except Fault α × Pass} (hcomposed : (Gen.onPass step).Composed)
    (h : ∀ p, p.Linked → (step p).2.Linked) : Linking (Gen.onPass step) where
  composed := hcomposed
  linked hp hrun := by
    obtain ⟨-, -, rfl⟩ := onPass_eq_ok hrun
    exact h _ hp

theorem name (name : String) (category : Category) :
    Linking (Gen.onPass fun p => p.name name category) :=
  onPass (.name name category) fun _ hp => hp.name name category

theorem helper (routine : Routine) : Linking (Gen.helper routine.name routine.template) where
  composed := .helper _ _
  linked hp hrun := by
    obtain ⟨hanswer, rfl⟩ := helper_eq_ok hrun
    exact (hp.provide hanswer).1

theorem failing {α : Type} (fault : Fault) : Linking (throw fault : Gen α) where
  composed := .throw fault
  linked _ hrun := by cases hrun

/-- Steps link where they are put together. -/
theorem congruence : Congruence Eq fun m _ => Linking m where
  pure := pure
  throw fault _ := failing fault
  wrapped _ _ _ _ _ _ := lift_cases pure failing _
  bind := bind
  options hf := bind options fun o => hf o o rfl
  requirePass := onPass .requirePass fun _ hp => hp
  record entry := onPass (.record entry) fun _ hp => hp.congr rfl
  call _ _ _ h := bind (name _ .procedure) fun _ => bind h fun _ => pure _
  routine routine _ _ := bind (helper routine) fun _ => pure _

end Linking

end Gen

open Gen (Linking)

/-- What defines a procedure links if the inputs do. -/
theorem Site.defineProcedure_linking (site : Site)
    (h : Matched Eq (fun m _ => Linking m) site site)
    (hcomplete : ∀ code, Linking (site.complete code false)) : Linking site.defineProcedure := by
  have htext : ∀ o name, Linking (site.procedureText o name) := fun o name =>
    h.procedureText Linking.congruence (fun _ _ h => h) (fun _ _ parameter _ =>
      parameterName_related Linking.congruence (fun _ => .name _ _) parameter) hcomplete rfl name
  have hcomposed : site.defineProcedure.Composed := by
    rw [defineProcedure_eq]
    exact .bind .options fun o => .bind (.name _ _) fun name =>
      .bind (htext o name).composed fun text => .define name text
  refine ⟨hcomposed, ?_⟩
  intro o p s a hp hrun
  obtain ⟨name, q, text, r, hname, hbody, hdefine⟩ := defineProcedure_eq_ok hrun
  -- The name is emitted when the procedure is begun, and still so when its text is complete.
  obtain ⟨-, -, hafter⟩ := Gen.onPass_eq_ok hname
  have hq : q.Linked := hafter ▸ hp.name _ _
  have hemits := Gen.emits_after hname (htext o name).composed
  rw [Gen.passAfter_of_ok hbody] at hemits
  have hr := (htext o name).linked hq hbody
  obtain ⟨parameters, hdeclares⟩ := (site.procedureText_allows o name _ _ _ trivial hbody).2
  obtain ⟨-, -, hdefined⟩ := Gen.onPass_eq_ok hdefine
  exact hdefined ▸ hr.define hemits hdeclares

/-- The main text of a workspace links. -/
theorem Session.mainText_linking (blocks : List Block) : Linking (mainText blocks) :=
  Block.mainText_related Linking.congruence (fun _ _ ho => ho) (fun _ => .name _ _)
    Site.defineProcedure_linking blocks

/-- The pass behind a program is linked. -/
theorem Workspace.linked_passBehind {w : Workspace} {o : Options} {out : String}
    (h : w.programText o = .ok out) : (w.passBehind o).Linked := by
  obtain ⟨main, q, hmain, -⟩ := exists_mainText h
  have hbehind : w.passBehind o = q := Gen.passAfter_of_ok hmain
  exact hbehind ▸ (Session.mainText_linking w.blocks).linked (Pass.linked_start _ _) hmain

end BlockScript
