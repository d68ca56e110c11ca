/-
  BlockScript.Proofs.Substring.Definition

  The definitions of routines in a pass. Every pass that a generator comes to holds, for each routine
  that it provides, the text of the routine under its emitted name. The text for a part of a text
  binds two integers and slices its first parameter between them.
-/
import BlockScript.Proofs.Helper.Linkage

namespace BlockScript

open Definitions (helperKey procedureKey)

/-! ## Passes on the way -/

namespace Pass

/-- The passes that a generator with settings comes to, if no step fails: nothing but routines is
    provided, and each by its own text. -/
inductive Visited (o : Options) : Pass → Prop
  | start {names : NameTable} (h : names.variablePrefix? = o.variablePrefix?)
      (variableNames : VariableNames) : Visited o (.start names variableNames)
  | record {p : Pass} (hp : Visited o p) (entry : Record) : Visited o (p.record entry)
  | name {p : Pass} (hp : Visited o p) (name : String) (category : Category) :
      Visited o (p.name name category).2
  | define {p : Pass} (hp : Visited o p) (name text : String) : Visited o (p.define name text)
  | routine {p : Pass} (hp : Visited o p) {routine : Routine} {emitted : String}
      (h : (p.provide o.indentText routine.name routine.template).1 = .ok emitted) :
      Visited o (p.provide o.indentText routine.name routine.template).2

namespace Visited

variable {o : Options} {p : Pass}

theorem reachable (h : p.Visited o) : p.Reachable o.variablePrefix? := by
  induction h with
  | start h variableNames => exact .start h variableNames
  | record hp entry ih => exact ih.record entry
  | name hp name category ih => exact ih.name name category
  | define hp name text ih => exact ih.define name text
  | routine hp h ih => exact ih.provide _ _ _

theorem isActive (h : p.Visited o) : p.isActive = true := by
  induction h with
  | start => rfl
  | record _ _ ih => exact ih
  | name _ _ _ ih => exact ih
  | define _ _ _ ih => exact ih
  | routine _ _ ih => exact ih

/-- What a pass provides is defined, by the text of the routine in the indent of the settings. -/
theorem defined (h : p.Visited o) {routine : Routine} {emitted : String}
    (hprovides : p.Provides routine emitted) : ∃ lead, o.indentText = .ok lead ∧
      (helperKey routine.name, Helper.reindent lead (Helper.instantiate routine.template emitted)) ∈
        p.definitions := by
  induction h generalizing routine emitted with
  | start h variableNames => cases hprovides
  | record hp entry ih => exact ih hprovides
  | name hp name category ih => exact ih hprovides
  | define hp name text ih =>
    obtain ⟨lead, hlead, hmem⟩ := ih hprovides
    exact ⟨lead, hlead, Definitions.mem_set_of_ne (Definitions.helperKey_ne_procedureKey _ _) hmem⟩
  | @routine p hp other emitted' hanswer ih =>
    have hcases := provide_eq_ok hanswer
    generalize (p.provide o.indentText other.name other.template).2 = q at hcases hprovides ⊢
    rcases hcases with ⟨-, hsame⟩ | ⟨hnone, lead, hlead, hhelpers, hdefinitions⟩
    · rw [Provides, hsame] at hprovides
      rw [definitions, hsame]
      exact ih hprovides
    · rw [Provides, hhelpers, List.lookup_append] at hprovides
      rw [hdefinitions]
      by_cases hname : routine.name = other.name
      · -- The routine is the one that is defined here.
        obtain rfl := Routine.name_inj hname
        rw [hnone, Option.none_or, List.lookup_cons_self] at hprovides
        obtain rfl := Option.some.inj hprovides
        exact ⟨lead, hlead, Definitions.mem_set_self⟩
      · have hother : List.lookup routine.name [(other.name, emitted')] = none := by
          rw [List.lookup_cons, beq_false_of_ne hname]
          rfl
        rw [hother, Option.or_none] at hprovides
        obtain ⟨lead', hlead', hmem⟩ := ih hprovides
        exact ⟨lead', hlead', Definitions.mem_set_of_ne
          (fun h => hname (Definitions.helperKey_inj h)) hmem⟩

end Visited

/-- A routine can be asked for in every such pass, if the indent of the settings is a text. -/
theorem Visited.helper_succeeds {o : Options} {p : Pass} (h : p.Visited o) {lead : String}
    (hlead : o.indentText = .ok lead) (routine : Routine) :
    ∃ emitted q, Gen.helper routine.name routine.template o p = .ok emitted q := by
  have hanswer : ∃ emitted, (p.provide o.indentText routine.name routine.template).1 = .ok emitted := by
    change ∃ emitted, (p.registry.provide o.indentText routine.name routine.template).answer =
      .ok emitted
    rw [Registry.provide, hlead]
    cases p.registry.helpers.lookup routine.name with
    | some emitted => exact ⟨emitted, rfl⟩
    | none => exact ⟨_, rfl⟩
  obtain ⟨emitted, hanswer⟩ := hanswer
  refine ⟨emitted, (p.provide o.indentText routine.name routine.template).2, ?_⟩
  rw [Gen.helper, Gen.bind_apply, Gen.options_apply]
  change Gen.onPass _ o p = _
  rw [Gen.onPass_apply _ h.isActive, hanswer]

end Pass

/-! ## Steps on the way -/

namespace Gen

/-- A step that leads, if it does not fail, to a pass that a generator comes to. -/
structure Visiting {α : Type} (m : Gen α) : Prop where
  run : ∀ {o : Options} {p q : Pass} {a : α}, p.Visited o → m o p = .ok a q → q.Visited o

namespace Visiting

variable {α β : Type}

theorem bind {m : Gen α} {f : α → Gen β} (hm : Visiting m) (hf : ∀ a, Visiting (f a)) :
    Visiting (m >>= f) where
  run hp hrun := by
    obtain ⟨a, q, hfirst, hsecond⟩ := bind_eq_ok hrun
    exact (hf a).run (hm.run hp hfirst) hsecond

theorem pure (a : α) : Visiting (pure a) where
  run hp hrun := by
    obtain ⟨-, rfl⟩ := EStateM.Result.ok.inj hrun
    exact hp

theorem options : Visiting Gen.options where
  run hp hrun := by
    obtain ⟨-, rfl⟩ := EStateM.Result.ok.inj hrun
    exact hp

/-- A step on the pass, if it is one of those that lead on. -/
theorem onPass {step : Pass → Except Fault α × Pass}
    (h : ∀ {o p}, p.Visited o → (step p).2.Visited o) : Visiting (onPass step) where
  run hp hrun := by
    obtain ⟨-, -, rfl⟩ := onPass_eq_ok hrun
    exact h hp

theorem name (name : String) (category : Category) :
    Visiting (Gen.onPass fun p => p.name name category) :=
  onPass fun hp => hp.name name category

theorem helper (routine : Routine) : Visiting (Gen.helper routine.name routine.template) where
  run hp hrun := by
    obtain ⟨hanswer, rfl⟩ := helper_eq_ok hrun
    exact hp.routine hanswer

theorem failing {α : Type} (fault : Fault) : Visiting (throw fault : Gen α) where
  run _ hrun := by cases hrun

/-- Steps lead to such passes where they are put together. -/
theorem congruence : Congruence Eq fun m _ => Visiting m where
  pure := pure
  throw fault _ := failing fault
  wrapped _ _ _ _ _ _ := lift_cases pure failing _
  bind := bind
  options hf := bind options fun o => hf o o rfl
  requirePass := onPass id
  record entry := onPass fun hp => hp.record entry
  call _ _ _ h := bind (name _ .procedure) fun _ => bind h fun _ => pure _
  routine routine _ _ := bind (helper routine) fun _ => pure _

end Visiting

end Gen

open Gen (Visiting)

/-- What defines a procedure leads to such a pass if the inputs do. -/
theorem Site.defineProcedure_visiting (site : Site) (h : Matched Eq (fun m _ => Visiting m) site site)
    (hcomplete : ∀ code, Visiting (site.complete code false)) : Visiting site.defineProcedure :=
  h.defineProcedure Visiting.congruence (fun _ _ h => h) (fun _ _ parameter _ =>
    parameterName_related Visiting.congruence (fun _ => .name _ _) parameter) hcomplete
    (fun _ => .name _ _) fun name text => .onPass fun hp => hp.define name text

/-- The code of every block leads to such a pass. -/
theorem Block.code_visiting (b : Block) (attached alone : Bool) : Visiting (b.code attached alone) :=
  Block.code_related Visiting.congruence (fun _ _ ho => ho) (fun _ => .name _ _)
    Site.defineProcedure_visiting b
    attached alone

/-! ## The text for a part of a text -/

/-- The text of a function that binds two integers and slices its first parameter between them. -/
def slicerText (name : String) (parameters : List String) (start stop : String) : String :=
  Site.procedureHead name parameters ++ "  var start = " ++ start ++ ";\n  var end = " ++ stop
    ++ ";\n  return sequence.slice(start, end);\n\x7d"

/-- The routine for a part of a text, under an emitted name. -/
theorem Routine.instantiate_subsequence (start stop : Site.Edge) (emitted : String) :
    Helper.instantiate (subsequence start stop).template emitted =
      slicerText emitted (subsequence start stop).parameters (Site.edgeIndex "0" "at1" start)
        (Site.edgeIndex "sequence.length - 1" "at2" stop ++ " + 1") := by
  obtain ⟨line, lines, htemplate, htext⟩ := (subsequence start stop).instantiate_eq emitted
  rw [← (List.cons.inj htemplate).2] at htext
  -- The mark begins with a brace, and there is none behind the head.
  have hbrace : '\x7b' ∉ (Text.join "\n" (subsequence start stop).template.tail).toList := by
    have hstart : ∀ edge, '\x7b' ∉ (Site.edgeIndex "0" "at1" edge).toList := by
      intro edge
      cases edge <;> decide
    have hstop : ∀ edge, '\x7b' ∉ (Site.edgeIndex "sequence.length - 1" "at2" edge).toList := by
      intro edge
      cases edge <;> decide
    simp [template, Site.subsequenceTemplate, Text.join, hstart, hstop]
  obtain ⟨more, hmark⟩ : ∃ more, Helper.nameMark.toList = '\x7b' :: more := ⟨_, rfl⟩
  have hkept : Text.replaceFrom ('\x7b' :: more) emitted.toList 0
      ((Text.join "\n" (subsequence start stop).template.tail).toList ++ []) = _ :=
    replaceFrom_append hbrace emitted.toList []
  rw [List.append_nil, Text.replaceFrom, List.append_nil] at hkept
  apply String.toList_injective
  rw [htext, hmark]
  refine (congrArg _ hkept).trans ?_
  simp only [slicerText, template, Site.subsequenceTemplate, List.tail_cons, Text.join,
    String.toList_append, List.append_assoc]
  rfl

end BlockScript
