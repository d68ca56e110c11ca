/-
  BlockScript.Proofs.Procedure.Trace

  What a run registers. A run that does not fail has a trace: the routines that it provides and the
  procedures that it defines, in their order. The trace determines the definitions that the run leaves
  and the warnings that it gives, and everything in it is so of the pass behind the run.
-/
import BlockScript.Proofs.Helper.Linkage
import BlockScript.Proofs.Procedure.Registration

namespace BlockScript

open Definitions (helperKey procedureKey)

namespace Procedure

/-! ## Events -/

/-- What a run registers. -/
inductive Event where
  /-- A routine that was not there is provided, with its text. -/
  | provided (routine : Routine) (emitted text : String)
  /-- A procedure is defined, by its emitted name and with its text. -/
  | defined (source emitted text : String)

namespace Event

/-- The entry of the definitions that is registered. -/
def entry? : Event → Option (String × String)
  | provided routine _ text => some (helperKey routine.name, text)
  | defined _ emitted text => some (procedureKey emitted, text)

/-- The emitted name of the procedure that is defined. -/
def definedName? : Event → Option String
  | provided _ _ _ => none
  | defined _ emitted _ => some emitted

/-- What is so of a pass behind an event: the routine is provided, or the name of the user's procedure
    is emitted, and the text declares the name that it is registered for. -/
def Holds (p : Pass) : Event → Prop
  | provided routine emitted text =>
    p.Provides routine emitted ∧ Declares text emitted routine.parameters
  | defined source emitted text =>
    p.Emits .procedure source emitted ∧ ∃ parameters, Declares text emitted parameters

/-- What is so once, is so at every later time. -/
theorem isInvariant_holds (event : Event) : Pass.IsInvariant event.Holds := by
  cases event with
  | provided routine emitted text =>
    have h := Pass.isInvariant_provides routine emitted
    exact ⟨fun p entry => And.imp_left (h.record p entry),
      fun p name category => And.imp_left (h.name p name category),
      fun p indent name template => And.imp_left (h.provide p indent name template),
      fun p name text => And.imp_left (h.define p name text)⟩
  | defined source emitted text =>
    have h := Pass.isInvariant_emits .procedure source emitted
    exact ⟨fun p entry => And.imp_left (h.record p entry),
      fun p name category => And.imp_left (h.name p name category),
      fun p indent name template => And.imp_left (h.provide p indent name template),
      fun p name text => And.imp_left (h.define p name text)⟩

end Event

/-! ## Traces -/

/-- A step that registers nothing. -/
inductive Silent : {α : Type} → Gen α → Prop
  | pure {α : Type} (a : α) : Silent (pure a)
  | options : Silent Gen.options
  | requirePass : Silent Gen.requirePass
  | record (entry : Record) : Silent (Gen.record entry)
  | name (name : String) (category : Category) : Silent (Gen.onPass fun p => p.name name category)

/-- A run that does not fail, with what it registers. -/
inductive Traced (o : Options) : {α : Type} → Gen α → Pass → List Event → α → Pass → Prop
  | silent {α : Type} {m : Gen α} {p q : Pass} {a : α} (hm : Silent m) (hrun : m o p = .ok a q) :
      Traced o m p [] a q
  | found {routine : Routine} {emitted : String} {arguments : List String} {p q : Pass}
      (hold : p.Provides routine emitted)
      (hrun : Gen.helper routine.name routine.template o p = .ok emitted q) :
      Traced o (Gen.callRoutine routine arguments) p []
        (emitted ++ "(" ++ Text.join ", " arguments ++ ")", .functionCall) q
  | provide {routine : Routine} {emitted lead : String} {arguments : List String} {p q : Pass}
      (hnew : p.registry.helpers.lookup routine.name = none) (hlead : o.indentText = .ok lead)
      (hrun : Gen.helper routine.name routine.template o p = .ok emitted q) :
      Traced o (Gen.callRoutine routine arguments) p
        [.provided routine emitted
          (Helper.reindent lead (Helper.instantiate routine.template emitted))]
        (emitted ++ "(" ++ Text.join ", " arguments ++ ")", .functionCall) q
  | define {site : Site} {emitted text : String} {p p' q r : Pass} {events : List Event}
      (hname : Gen.procedureName (site.head.field "NAME").shown o p = .ok emitted p')
      (htext : Traced o (site.procedureText o emitted) p' events text q)
      (hdefine : Gen.define emitted text o q = .ok () r) :
      Traced o site.defineProcedure p
        (events ++ [.defined (site.head.field "NAME").shown emitted text]) () r
  | bind {α β : Type} {m : Gen α} {f : α → Gen β} {p q r : Pass} {a : α} {b : β}
      {events events' : List Event} (hm : Traced o m p events a q)
      (hf : Traced o (f a) q events' b r) : Traced o (m >>= f) p (events ++ events') b r

variable {o : Options} {α : Type} {m : Gen α} {p q : Pass} {a : α} {events : List Event}

namespace Traced

/-- A trace is one of a run. -/
theorem run (h : Traced o m p events a q) : m o p = .ok a q := by
  induction h with
  | silent hm hrun => exact hrun
  | found hold hrun =>
    rw [Gen.callRoutine, Gen.bind_apply, hrun]
    rfl
  | provide hnew hlead hrun =>
    rw [Gen.callRoutine, Gen.bind_apply, hrun]
    rfl
  | define hname htext hdefine ih =>
    rw [Site.defineProcedure_eq, Gen.bind_apply, Gen.options_apply]
    simp only [Gen.bind_apply, Site.procedureName, hname, ih]
    exact hdefine
  | bind hm hf ihm ihf =>
    rw [Gen.bind_apply, ihm]
    exact ihf

end Traced

/-! ## Steps -/

/-- A step that registers nothing keeps every invariant, the definitions and the warnings. -/
theorem Silent.keeps (hm : Silent m) (hrun : m o p = .ok a q) :
    (∀ {I : Pass → Prop}, Pass.IsInvariant I → I p → I q) ∧ q.definitions = p.definitions ∧
      q.log.warnings = p.log.warnings := by
  cases hm with
  | pure a =>
    obtain ⟨-, rfl⟩ := EStateM.Result.ok.inj hrun
    exact ⟨fun _ hp => hp, rfl, rfl⟩
  | options =>
    obtain ⟨-, rfl⟩ := EStateM.Result.ok.inj hrun
    exact ⟨fun _ hp => hp, rfl, rfl⟩
  | requirePass =>
    obtain ⟨-, -, rfl⟩ := Gen.onPass_eq_ok hrun
    exact ⟨fun _ hp => hp, rfl, rfl⟩
  | record entry =>
    obtain ⟨-, -, rfl⟩ := Gen.onPass_eq_ok hrun
    exact ⟨fun hI hp => hI.record p entry hp, rfl, rfl⟩
  | name name category =>
    obtain ⟨-, -, rfl⟩ := Gen.onPass_eq_ok hrun
    exact ⟨fun hI hp => hI.name p name category hp, rfl, rfl⟩

namespace Traced

/-! ## Runs -/

/-- A run keeps every invariant. -/
theorem keeps (h : Traced o m p events a q) {I : Pass → Prop} (hI : Pass.IsInvariant I) (hp : I p) :
    I q := by
  induction h with
  | silent hm hrun => exact (hm.keeps hrun).1 hI hp
  | found hold hrun =>
    obtain ⟨-, rfl⟩ := Gen.helper_eq_ok hrun
    exact hI.provide _ _ _ _ hp
  | provide hnew hlead hrun =>
    obtain ⟨-, rfl⟩ := Gen.helper_eq_ok hrun
    exact hI.provide _ _ _ _ hp
  | define hname htext hdefine ih =>
    obtain ⟨-, -, rfl⟩ := Gen.onPass_eq_ok hname
    obtain ⟨-, -, rfl⟩ := Gen.onPass_eq_ok hdefine
    exact hI.define _ _ _ (ih (hI.name _ _ _ hp))
  | bind hm hf ihm ihf => exact ihf (ihm hp)

/-- The definitions are those before, with what is registered in the run set on top of them. -/
theorem definitions (h : Traced o m p events a q) :
    q.definitions = (events.filterMap Event.entry?).foldl
      (fun definitions entry => Definitions.set entry.1 entry.2 definitions) p.definitions := by
  induction h with
  | silent hm hrun => exact (hm.keeps hrun).2.1
  | @found routine emitted arguments p q hold hrun =>
    obtain ⟨hanswer, rfl⟩ := Gen.helper_eq_ok hrun
    obtain ⟨-, hsame⟩ | ⟨hnone, -⟩ := Registry.provide_eq_ok hanswer
    · exact congrArg Registry.definitions hsame
    · exact absurd (hold.symm.trans hnone) (by simp)
  | @provide routine emitted lead arguments p q hnew hlead hrun =>
    obtain ⟨hanswer, rfl⟩ := Gen.helper_eq_ok hrun
    obtain ⟨hsome, -⟩ | ⟨-, lead', hlead', -, hset⟩ := Registry.provide_eq_ok hanswer
    · exact absurd (hnew.symm.trans hsome) (by simp)
    · obtain rfl := Except.ok.inj (hlead.symm.trans hlead')
      exact hset
  | @define site emitted text p p' q r events hname htext hdefine ih =>
    obtain ⟨-, -, rfl⟩ := Gen.onPass_eq_ok hname
    obtain ⟨-, -, rfl⟩ := Gen.onPass_eq_ok hdefine
    have ih : q.definitions = _ := ih
    rw [List.filterMap_append, List.foldl_append]
    exact congrArg (Definitions.set (procedureKey emitted) text) ih
  | bind hm hf ihm ihf => rw [ihf, ihm, List.filterMap_append, List.foldl_append]

/-- The warnings are those before, and one for every procedure that is defined again. -/
theorem warnings (h : Traced o m p events a q) {names : List String}
    (hnames : ∀ name, p.definitions.hasKey (procedureKey name) = true ↔ name ∈ names) :
    (∀ name, q.definitions.hasKey (procedureKey name) = true ↔
      name ∈ names ++ events.filterMap Event.definedName?) ∧
    q.log.warnings = p.log.warnings ++ (furtherNames names (events.filterMap Event.definedName?)).map
      fun name => "Procedure " ++ name ++ " defined more than once" := by
  induction h generalizing names with
  | silent hm hrun =>
    obtain ⟨-, hdefinitions, hwarnings⟩ := hm.keeps hrun
    rw [hdefinitions, hwarnings]
    simpa [furtherNames] using hnames
  | @found routine emitted arguments p q hold hrun =>
    have htrace : Traced o (Gen.callRoutine routine arguments) p [] _ q := found hold hrun
    have hsame := htrace.definitions
    obtain ⟨-, rfl⟩ := Gen.helper_eq_ok hrun
    rw [hsame]
    simpa [furtherNames] using ⟨hnames, rfl⟩
  | @provide routine emitted lead arguments p q hnew hlead hrun =>
    have htrace : Traced o (Gen.callRoutine routine arguments) p _ _ q := provide hnew hlead hrun
    have hset := htrace.definitions
    obtain ⟨-, rfl⟩ := Gen.helper_eq_ok hrun
    rw [hset]
    refine ⟨fun name => ?_, ?_⟩
    · have hkey := (Definitions.helperKey_ne_procedureKey routine.name name).symm
      simp [Event.entry?, Event.definedName?, Definitions.hasKey_set_iff, hkey, hnames]
    · exact (List.append_nil _).symm
  | @define site emitted text p p' q r events hname htext hdefine ih =>
    obtain ⟨-, -, rfl⟩ := Gen.onPass_eq_ok hname
    obtain ⟨-, -, rfl⟩ := Gen.onPass_eq_ok hdefine
    obtain ⟨hkeys, hwarnings⟩ := ih hnames
    have hdefined : (events ++ [Event.defined (site.head.field "NAME").shown emitted text]).filterMap
        Event.definedName? = events.filterMap Event.definedName? ++ [emitted] := by
      rw [List.filterMap_append]
      rfl
    rw [hdefined]
    refine ⟨fun name => ?_, ?_⟩
    · change (q.definitions.set (procedureKey emitted) text).hasKey _ = true ↔ _
      have hsame : procedureKey name = procedureKey emitted ↔ name = emitted :=
        ⟨Definitions.procedureKey_inj, congrArg procedureKey⟩
      rw [Definitions.hasKey_set_iff, hkeys, hsame, ← List.append_assoc, List.mem_append (t := [emitted]),
        List.mem_singleton, or_comm]
    · -- The name is a further one if its key is there already.
      have hwarnings : q.log.warnings = p.log.warnings ++ _ := hwarnings
      rw [furtherNames_append, List.map_append, ← List.append_assoc, ← hwarnings]
      change (if q.definitions.hasKey (procedureKey emitted) then _ else _ : Log).warnings = _
      by_cases hkey : q.definitions.hasKey (procedureKey emitted) = true
      · rw [if_pos hkey, furtherNames, if_pos ((hkeys emitted).mp hkey)]
        rfl
      · rw [if_neg hkey, furtherNames, if_neg fun hmem => hkey ((hkeys emitted).mpr hmem)]
        exact (List.append_nil _).symm
  | bind hm hf ihm ihf =>
    obtain ⟨hkeys, hwarnings⟩ := ihm hnames
    obtain ⟨hkeys', hwarnings'⟩ := ihf hkeys
    rw [hwarnings', hwarnings, List.filterMap_append, furtherNames_append, List.map_append,
      List.append_assoc]
    simpa using hkeys'

/-- Everything in a trace is so of the pass behind the run. -/
theorem holds {lead? : Option String} (h : Traced o m p events a q) (hp : p.Named lead?) :
    ∀ event ∈ events, event.Holds q := by
  induction h with
  | silent hm hrun => exact fun _ hevent => absurd hevent List.not_mem_nil
  | found hold hrun => exact fun _ hevent => absurd hevent List.not_mem_nil
  | @provide routine emitted lead arguments p q hnew hlead hrun =>
    obtain ⟨hanswer, rfl⟩ := Gen.helper_eq_ok hrun
    intro event hevent
    obtain rfl := List.mem_singleton.mp hevent
    exact ⟨Pass.provides_of_provide hanswer,
      routine.declares ((hp.provide _ _ _).2 emitted hanswer) lead⟩
  | @define site emitted text p p' q r events hname htext hdefine ih =>
    obtain ⟨-, hanswer, rfl⟩ := Gen.onPass_eq_ok hname
    obtain ⟨-, -, rfl⟩ := Gen.onPass_eq_ok hdefine
    have hemits := Pass.emits_of_name hanswer
    intro event hevent
    rcases List.mem_append.mp hevent with hinner | hlast
    · have hkept := ih ((Pass.isInvariant_named lead?).name _ _ _ hp) event hinner
      exact event.isInvariant_holds.define _ _ _ hkept
    · obtain rfl := List.mem_singleton.mp hlast
      refine ⟨htext.keeps (Pass.isInvariant_emits _ _ _) hemits, ?_⟩
      exact (site.procedureText_allows o emitted _ _ _ trivial htext.run).2
  | bind hm hf ihm ihf =>
    intro event hevent
    have hq := hm.keeps (Pass.isInvariant_named lead?) hp
    rcases List.mem_append.mp hevent with hfirst | hsecond
    · exact hf.keeps event.isInvariant_holds (ihm hp event hfirst)
    · exact ihf hq event hsecond

end Traced

end Procedure

end BlockScript
