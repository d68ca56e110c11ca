/-
  BlockScript.Proofs.Procedure.Linkage

  Calls of procedures and their definitions. Names that differ in case only are one procedure: they
  are called and defined by one emitted name, and no other procedure has it. What is defined stands
  ahead of the main text once, where it was defined first and with the text that it was given last,
  and every further definition is warned of.
-/
import BlockScript.Proofs.Procedure.Call
import BlockScript.Proofs.Procedure.Trace

namespace BlockScript

open Definitions (procedureKey lastText registered)

namespace Procedure

/-! ## Every run is traced -/

/-- A step of which every run that does not fail has a trace. -/
def Tracing {α : Type} (m : Gen α) : Prop :=
  ∀ {o : Options} {p q : Pass} {a : α}, m o p = .ok a q → ∃ events, Traced o m p events a q

namespace Tracing

variable {α β : Type}

theorem of_silent {m : Gen α} (hm : Silent m) : Tracing m :=
  fun hrun => ⟨[], .silent hm hrun⟩

theorem bind {m : Gen α} {f : α → Gen β} (hm : Tracing m) (hf : ∀ a, Tracing (f a)) :
    Tracing (m >>= f) := by
  intro o p r b hrun
  obtain ⟨a, q, hfirst, hsecond⟩ := Gen.bind_eq_ok hrun
  obtain ⟨events, htrace⟩ := hm hfirst
  obtain ⟨events', htrace'⟩ := hf a hsecond
  exact ⟨events ++ events', htrace.bind htrace'⟩

theorem callRoutine (routine : Routine) (arguments : List String) :
    Tracing (Gen.callRoutine routine arguments) := by
  intro o p r b hrun
  obtain ⟨emitted, q, hhelper, hpure⟩ := Gen.bind_eq_ok hrun
  obtain ⟨rfl, rfl⟩ := EStateM.Result.ok.inj hpure
  -- The routine is there, or it is provided in the indent of the settings.
  obtain ⟨hold, -⟩ | ⟨hnew, lead, hlead, -⟩ := Registry.provide_eq_ok (Gen.helper_eq_ok hhelper).1
  · exact ⟨[], .found hold hhelper⟩
  · exact ⟨_, .provide hnew hlead hhelper⟩

theorem failing (fault : Fault) : Tracing (throw fault : Gen α) := by
  intro o p q a hrun
  cases hrun

theorem lift (result : Except Fault α) : Tracing (Gen.lift result) := by
  cases result with
  | ok a => exact of_silent (.pure a)
  | error fault => exact failing fault

/-- A procedure is called under a name that is given out, and nothing is registered with it. -/
theorem callProcedure (source : String) {arguments : Gen (List String)} (h : Tracing arguments) :
    Tracing (Gen.callProcedure source arguments) := by
  apply bind (of_silent (.name source .procedure))
  intro emitted
  apply bind h
  exact fun arguments => of_silent (.pure _)

/-- Steps are traced where they are put together. -/
theorem congruence : Gen.Congruence Eq fun m _ => Tracing m where
  pure a := of_silent (.pure a)
  throw fault _ := failing fault
  wrapped _ _ _ _ _ _ := lift _
  bind := bind
  options hf := bind (of_silent .options) fun o => hf o o rfl
  requirePass := of_silent .requirePass
  record entry := of_silent (.record entry)
  call source _ _ h := callProcedure source h
  routine routine arguments _ := callRoutine routine arguments

end Tracing

/-- What defines a procedure is traced if the inputs are. -/
theorem defineProcedure_tracing (site : Site) (h : Site.Matched Eq (fun m _ => Tracing m) site site)
    (hcomplete : ∀ code, Tracing (site.complete code false)) : Tracing site.defineProcedure := by
  intro o p r _ hrun
  obtain ⟨emitted, p', text, q, hname, htext, hdefine⟩ := Site.defineProcedure_eq_ok hrun
  have hparameter (parameter : Json) : Tracing (Site.parameterName parameter) :=
    Site.parameterName_related Tracing.congruence (fun _ => Tracing.of_silent (.name _ .userVariable))
      parameter
  obtain ⟨events, htrace⟩ := h.procedureText Tracing.congruence (fun _ _ h => h)
    (fun _ _ parameter _ => hparameter parameter) hcomplete rfl emitted htext
  exact ⟨_, .define hname htrace hdefine⟩

/-- The main text of a workspace is traced. -/
theorem mainText_tracing (blocks : List Block) : Tracing (Session.mainText blocks) :=
  Block.mainText_related Tracing.congruence (fun _ _ ho => ho)
    (fun _ => Tracing.of_silent (.name _ .userVariable)) defineProcedure_tracing blocks

end Procedure

/-! ## Names -/

/-- Two names of procedures are emitted alike if and only if they differ in case at most. -/
theorem Pass.Emits.eq_iff {p : Pass} {source source' emitted emitted' : String}
    (hnames : p.registry.OneNamespace) (h : p.Emits .procedure source emitted)
    (h' : p.Emits .procedure source' emitted') :
    emitted = emitted' ↔ Text.lower source = Text.lower source' := by
  obtain ⟨lead, candidate, hlead, hmemo, rfl⟩ := h
  obtain ⟨lead', candidate', hlead', hmemo', rfl⟩ := h'
  obtain rfl : "" = lead := Except.ok.inj hlead
  obtain rfl : "" = lead' := Except.ok.inj hlead'
  rw [String.empty_append, String.empty_append]
  constructor
  · rintro rfl
    exact (NameTable.memoKey_inj.mp (hnames.apart.lookup_inj hmemo hmemo')).1
  · intro hlower
    rw [NameTable.memoKey, hlower, ← NameTable.memoKey, hmemo'] at hmemo
    exact (Option.some.inj hmemo).symm

namespace Procedure

variable {events : List Event} {p : Pass} {lead? : Option String}

/-- What is registered comes of an event, and declares the name of it. -/
theorem exists_event {key text : String} (h : (key, text) ∈ events.filterMap Event.entry?) :
    (∃ routine emitted, .provided routine emitted text ∈ events ∧
      key = Definitions.helperKey routine.name) ∨
    ∃ source emitted, .defined source emitted text ∈ events ∧ key = procedureKey emitted := by
  obtain ⟨event, hevent, hentry⟩ := List.mem_filterMap.mp h
  cases event with
  | provided routine emitted text' =>
    obtain ⟨rfl, rfl⟩ := Prod.mk.inj (Option.some.inj hentry)
    exact Or.inl ⟨routine, emitted, hevent, rfl⟩
  | defined source emitted text' =>
    obtain ⟨rfl, rfl⟩ := Prod.mk.inj (Option.some.inj hentry)
    exact Or.inr ⟨source, emitted, hevent, rfl⟩

/-- A defined procedure is declared by the text that was registered last, and by no other one. -/
theorem exists_only_definition (hnames : p.registry.OneNamespace) (hp : p.Named lead?)
    (hholds : ∀ event ∈ events, event.Holds p) {emitted : String}
    (hdefined : procedureKey emitted ∈ (events.filterMap Event.entry?).map (·.1)) :
    ∃ before after parameters, (registered (events.filterMap Event.entry?)).texts =
        before ++ lastText (events.filterMap Event.entry?) (procedureKey emitted) :: after ∧
      Declares (lastText (events.filterMap Event.entry?) (procedureKey emitted)) emitted parameters ∧
      ∀ other ∈ before ++ after, ∀ parameters, ¬ Declares other emitted parameters := by
  generalize hentries : events.filterMap Event.entry? = entries at hdefined ⊢
  have hmem : (procedureKey emitted, lastText entries (procedureKey emitted)) ∈
      registered entries := List.mem_map.mpr ⟨_, List.mem_eraseDups.mpr hdefined, rfl⟩
  obtain ⟨before, after, hregistered⟩ := List.append_of_mem hmem
  have hkeys := Definitions.nodup_eraseDups (entries.map (·.1))
  rw [← Definitions.keys_registered, hregistered, List.map_append, List.map_cons,
    List.nodup_middle, List.nodup_cons, ← List.map_append] at hkeys
  -- The last text is one of a definition under the name, which is emitted and which it declares.
  have hlast : ∃ source parameters, p.Emits .procedure source emitted ∧
      Declares (lastText entries (procedureKey emitted)) emitted parameters := by
    have hmem := Definitions.mem_of_lastText hdefined
    rw [← hentries] at hmem
    obtain ⟨routine, _, -, hhelper⟩ | ⟨source, emitted', hevent, hsame⟩ := exists_event hmem
    · exact absurd hhelper.symm (Definitions.helperKey_ne_procedureKey _ _)
    · obtain rfl := Definitions.procedureKey_inj hsame
      rw [← hentries]
      obtain ⟨hemits, parameters, hdeclares⟩ := hholds _ hevent
      exact ⟨source, parameters, hemits, hdeclares⟩
  obtain ⟨source, parameters, hemits, hdeclares⟩ := hlast
  refine ⟨before.map (·.2), after.map (·.2), parameters, ?_, hdeclares, ?_⟩
  · rw [Definitions.texts, hregistered, List.map_append, List.map_cons]
  · rw [← List.map_append]
    intro other hother parameters' hdeclares'
    obtain ⟨⟨key, text'⟩, hentry, rfl⟩ := List.mem_map.mp hother
    have hin : (key, text') ∈ registered entries := by
      rw [hregistered]
      exact List.perm_middle.symm.subset (List.mem_cons_of_mem _ hentry)
    have hmem := Definitions.mem_of_mem_registered hin
    rw [← hentries] at hmem
    -- One name is declared by a text, and one key stands in the definitions.
    obtain ⟨routine, emitted', hevent, -⟩ | ⟨source', emitted', hevent, rfl⟩ := exists_event hmem
    · obtain ⟨hprovides, htext⟩ := hholds _ hevent
      have hname := hp.helpers _ (NameTable.mem_of_lookup_eq_some hprovides)
      obtain rfl := hdeclares'.name_eq htext (hemits.isName hp) hname
      exact hprovides.not_emits hnames rfl source hemits
    · obtain ⟨hemits', _, htext⟩ := hholds _ hevent
      obtain rfl := hdeclares'.name_eq htext (hemits.isName hp) (hemits'.isName hp)
      exact hkeys.1 (List.mem_map.mpr ⟨_, hentry, rfl⟩)

end Procedure

/-! ## Programs -/

/-- The log that a generator keeps of a program is that of the pass behind the main text. -/
theorem Session.lastLog_programText {w : Workspace} {o : Options} {out : String}
    (h : w.programText o = .ok out) :
    ((Session.new o).programText w).2.lastLog? = some (w.passBehind o).log := by
  rw [w.programText_eq] at h
  obtain ⟨_, r, hrun, -⟩ := answer_eq_ok h
  obtain ⟨text, q, hmain, hfinish⟩ := Gen.bind_eq_ok hrun
  obtain ⟨-, -, hafter⟩ := Gen.onPass_eq_ok hfinish
  have hover : passOver o (.new reservedWords o.variablePrefix?) w = r := Gen.passAfter_of_ok hrun
  have hbehind : w.passBehind o = q := Gen.passAfter_of_ok hmain
  rw [programText_eq]
  change some (passOver o (.new reservedWords o.variablePrefix?) w).log = _
  rw [hover, hbehind, ← hafter, Pass.finish]
  split <;> rfl

namespace Workspace

open Procedure (Event Traced)

/-- The linkage of procedures. A program is its definitions and its main text, and its run has a trace
    of what it registers. Throughout the run every block that calls or defines a procedure does so by
    the name that is emitted for the name that the block gives. Two of these are one name if and only
    if the names that are given differ in case at most. The definitions are what is registered in the
    run, in the order of the first registrations and with the last texts; the name of a defined
    procedure is declared by its last text, and by no other one. The log has one warning for every
    further definition of a name, so of each name one less than there are definitions of it. -/
theorem procedures_linked (w : Workspace) {o : Options} {out : String}
    (h : w.programText o = .ok out) :
    ∃ events main,
      Traced o (Session.mainText w.blocks)
        (.start (.new reservedWords o.variablePrefix?) w.variableNames) events main
        (w.passBehind o) ∧
      out = Text.tidy (Text.join "\n\n" (registered (events.filterMap Event.entry?)).texts
        ++ "\n\n\n" ++ main) ∧
      (w.Throughout o fun site result p => (w.passBehind o).LinksProcedures site result p) ∧
      (∀ source source' emitted emitted', (w.passBehind o).Emits .procedure source emitted →
        (w.passBehind o).Emits .procedure source' emitted' →
          (emitted = emitted' ↔ Text.lower source = Text.lower source')) ∧
      (w.passBehind o).definitions = registered (events.filterMap Event.entry?) ∧
      (∀ source emitted text, .defined source emitted text ∈ events →
        (w.passBehind o).Emits .procedure source emitted) ∧
      (∀ emitted, (w.passBehind o).definitions.hasKey (procedureKey emitted) = true →
        ∃ before after parameters, (registered (events.filterMap Event.entry?)).texts =
            before ++ lastText (events.filterMap Event.entry?) (procedureKey emitted) :: after ∧
          Declares (lastText (events.filterMap Event.entry?) (procedureKey emitted)) emitted
            parameters ∧
          ∀ other ∈ before ++ after, ∀ parameters, ¬ Declares other emitted parameters) ∧
      ((Session.new o).programText w).2.lastLog?.map (·.warnings) =
        some ((furtherNames [] (events.filterMap Event.definedName?)).map fun name =>
          "Procedure " ++ name ++ " defined more than once") ∧
      ∀ name, (furtherNames [] (events.filterMap Event.definedName?)).count name =
        (events.filterMap Event.definedName?).count name - 1 := by
  have hthroughout : w.Throughout o fun site result p =>
      (w.passBehind o).LinksProcedures site result p := by
    apply throughout h
    intro b attached o' p q result hq hrun
    exact (Site.rule_linksProcedures (b.hasComposedInputs attached) _ _ _ _ hrun).mono hq
  obtain ⟨main, q, hmain, rfl⟩ := exists_mainText h
  have hbehind : w.passBehind o = q := Gen.passAfter_of_ok hmain
  obtain ⟨events, htrace⟩ := Procedure.mainText_tracing w.blocks hmain
  have hlead : (NameTable.new reservedWords o.variablePrefix?).variablePrefix? = o.variablePrefix? :=
    rfl
  have hstart := (Pass.Reachable.start hlead w.variableNames).named
  have hnamed := htrace.keeps (Pass.isInvariant_named _) hstart
  have hnames := w.oneNamespace_passBehind o
  have hholds := htrace.holds hstart
  have hdefinitions := htrace.definitions.trans (Definitions.foldl_set _)
  have hnone : ∀ name, Definitions.hasKey [] (procedureKey name) = true ↔ name ∈ ([] : List String) :=
    fun name => by simp [Definitions.hasKey]
  have hwarnings := (htrace.warnings hnone).2
  rw [Session.lastLog_programText h]
  rw [hbehind] at hnames hthroughout ⊢
  refine ⟨events, main, htrace, by rw [hdefinitions], hthroughout, ?_, hdefinitions, ?_, ?_,
    congrArg some hwarnings, fun name => count_furtherNames name _⟩
  · intro source source' emitted emitted' hemits hemits'
    exact hemits.eq_iff hnames hemits'
  · exact fun source emitted text hdefined => (hholds _ hdefined).1
  · intro emitted hkey
    rw [hdefinitions, Definitions.hasKey_iff, Definitions.keys_registered, List.mem_eraseDups] at hkey
    exact Procedure.exists_only_definition hnames hnamed hholds hkey

end Workspace

/-- A call ahead of two definitions, of names that differ in case, with another procedure between
    them that calls the same one. -/
def calledAhead : Workspace where
  variableNames := []
  blocks := [
    .mk ⟨.statement .call, "call", [(.str "NAME", .str "Greet")], .null, .bool false, true, []⟩
      [] [] none,
    .mk ⟨.statement .procedure, "first", [(.str "NAME", .str "greet")], .null, .bool false, true, []⟩
      []
      [("STACK", some (.mk ⟨.statement .print, "print", [], .null, .bool false, true, []⟩ [] [] none))]
      none,
    .mk ⟨.statement .function, "other", [(.str "NAME", .str "alert")], .null, .bool false, true, []⟩
      [("RETURN", some (.mk ⟨.value .call, "inner", [(.str "NAME", .str "GREET")], .null, .bool true,
        true, []⟩ [] [] none))] [] none,
    .mk ⟨.statement .procedure, "second", [(.str "NAME", .str "GREET")], .null, .bool false, true, []⟩
      [] [] none]
  options := .default

theorem programText_calledAhead : calledAhead.programText .default =
    .ok "function Greet() \x7b\n\x7d\n\nfunction alert2() \x7b\n  return Greet();\n\x7d\n\n\nGreet();\n" := by
  with_unfolding_all rfl

theorem procedures_linked_calledAhead :
    ∃ out, calledAhead.programText .default = .ok out ∧
      ∃ events main, Procedure.Traced .default (Session.mainText calledAhead.blocks)
          (.start (.new reservedWords (some "")) []) events main (calledAhead.passBehind .default) ∧
        (calledAhead.Throughout .default fun site result p =>
          (calledAhead.passBehind .default).LinksProcedures site result p) ∧
        (∀ source source' emitted emitted',
          (calledAhead.passBehind .default).Emits .procedure source emitted →
          (calledAhead.passBehind .default).Emits .procedure source' emitted' →
            (emitted = emitted' ↔ Text.lower source = Text.lower source')) ∧
        (furtherNames [] (events.filterMap Procedure.Event.definedName?)).map
          (fun name => "Procedure " ++ name ++ " defined more than once") =
            ["Procedure Greet defined more than once"] := by
  obtain ⟨events, main, htrace, -, hlinks, hnames, -, -, -, hwarnings, -⟩ :=
    calledAhead.procedures_linked (o := .default) programText_calledAhead
  have hlog : ((Session.new .default).programText calledAhead).2.lastLog?.map (·.warnings) =
      some ["Procedure Greet defined more than once"] := by
    with_unfolding_all rfl
  exact ⟨_, programText_calledAhead, events, main, htrace, hlinks, hnames,
    Option.some.inj (hwarnings.symm.trans hlog)⟩

end BlockScript
