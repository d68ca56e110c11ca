/-
  BlockScript.Proofs.Generate.Reachable

  The passes that a generator can come to, in any order of its operations. Whatever came before, the
  names that a pass remembers and those of its helpers are identifiers, so that an emitted name is
  one behind the prefix of the settings.
-/
import BlockScript.Proofs.Generate.Logic
import BlockScript.Proofs.Name.Identifier

namespace BlockScript

open Script (isName)

namespace Pass

/-- The passes that a generator with a prefix for variables can come to. -/
inductive Reachable (lead? : Option String) : Pass → Prop
  | start {names : NameTable} (h : names.variablePrefix? = lead?) (variableNames : VariableNames) :
      Reachable lead? (.start names variableNames)
  | record {p : Pass} (hp : Reachable lead? p) (entry : Record) : Reachable lead? (p.record entry)
  | name {p : Pass} (hp : Reachable lead? p) (name : String) (category : Category) :
      Reachable lead? (p.name name category).2
  | distinct {p : Pass} (hp : Reachable lead? p) (name : String) (category : Category) :
      Reachable lead? (p.distinct name category).2
  | provide {p : Pass} (hp : Reachable lead? p) (indent : Except Fault String) (name : String)
      (template : List String) : Reachable lead? (p.provide indent name template).2
  | define {p : Pass} (hp : Reachable lead? p) (name text : String) :
      Reachable lead? (p.define name text)
  | reserve {p : Pass} (hp : Reachable lead? p) (words : List String) :
      Reachable lead? (p.withNames (p.names.reserve words))
  | setVariableNames {p : Pass} (hp : Reachable lead? p) (variableNames : VariableNames) :
      Reachable lead? (p.withNames { p.names with variableNames })
  | finish {p : Pass} (hp : Reachable lead? p) (text : String) : Reachable lead? (p.finish text).2
  | close {p : Pass} (hp : Reachable lead? p) : Reachable lead? p.close

/-- What the names of a reachable pass have in common. -/
structure Named (lead? : Option String) (p : Pass) : Prop where
  variablePrefix : p.names.variablePrefix? = lead?
  remembers : p.names.Remembers
  helpers : ∀ entry ∈ p.registry.helpers, isName entry.2.toList = true

namespace Named

variable {lead? : Option String} {p : Pass}

theorem record (hp : p.Named lead?) (entry : Record) : (p.record entry).Named lead? :=
  ⟨hp.variablePrefix, hp.remembers, hp.helpers⟩

theorem define (hp : p.Named lead?) (name text : String) : (p.define name text).Named lead? :=
  ⟨hp.variablePrefix, hp.remembers, hp.helpers⟩

theorem finish (hp : p.Named lead?) (text : String) : (p.finish text).2.Named lead? := by
  rw [Pass.finish]
  split
  · exact hp
  · exact ⟨hp.variablePrefix, fun _ hentry => absurd hentry List.not_mem_nil,
      fun _ hentry => absurd hentry List.not_mem_nil⟩

/-- A request for a name keeps the names. -/
theorem named (hp : p.Named lead?) {naming : Naming} {category : Category}
    (h : naming.Sound p.names category) : (p.named naming).2.Named lead? where
  variablePrefix := h.variablePrefix.trans hp.variablePrefix
  remembers := h.remembers
  helpers := hp.helpers

theorem provide (hp : p.Named lead?) (indent : Except Fault String) (name : String)
    (template : List String) :
    (p.provide indent name template).2.Named lead? ∧
      ∀ emitted, (p.provide indent name template).1 = .ok emitted →
        isName emitted.toList = true := by
  simp only [Pass.provide, Registry.provide]
  cases hhelper : p.registry.helpers.lookup name with
  | some emitted =>
    refine ⟨⟨hp.variablePrefix, hp.remembers, hp.helpers⟩, ?_⟩
    intro emitted' h
    obtain rfl := Except.ok.inj h
    exact hp.helpers _ (NameTable.mem_of_lookup_eq_some hhelper)
  | none =>
    have hsound := NameTable.distinct_sound hp.remembers name .procedure
    have hnames : (p.registry.names.distinct name .procedure).Sound p.names .procedure := hsound
    cases hanswer : (p.registry.names.distinct name .procedure).answer with
    | error fault =>
      refine ⟨⟨hnames.variablePrefix.trans hp.variablePrefix, hnames.remembers, hp.helpers⟩, ?_⟩
      intro emitted h
      cases h
    | ok emitted =>
      -- Helpers are procedures, whose names have no prefix.
      obtain ⟨lead, candidate, hlead, hname, hemitted⟩ := hnames.answer emitted hanswer
      obtain rfl : lead = "" := (Except.ok.inj hlead).symm
      rw [String.empty_append] at hemitted
      rw [← hemitted] at hname
      have hhelpers : ∀ entry ∈ p.registry.helpers ++ [(name, emitted)],
          isName entry.2.toList = true := by
        intro entry hentry
        rcases List.mem_append.mp hentry with hold | hnew
        · exact hp.helpers entry hold
        · rw [List.mem_singleton.mp hnew]
          exact hname
      have hsame := hnames.variablePrefix.trans hp.variablePrefix
      cases indent with
      | error fault =>
        refine ⟨⟨hsame, hnames.remembers, hhelpers⟩, ?_⟩
        intro emitted' h
        cases h
      | ok indent =>
        refine ⟨⟨hsame, hnames.remembers, hhelpers⟩, ?_⟩
        intro emitted' h
        obtain rfl := Except.ok.inj h
        exact hname

end Named

/-- The names of a reachable pass are identifiers. -/
theorem Reachable.named {lead? : Option String} {p : Pass} (h : p.Reachable lead?) :
    p.Named lead? := by
  induction h with
  | start h variableNames => exact ⟨h, fun _ hentry => absurd hentry List.not_mem_nil,
      fun _ hentry => absurd hentry List.not_mem_nil⟩
  | record hp entry ih => exact ih.record entry
  | name hp name category ih => exact ih.named (NameTable.name_sound ih.remembers name category)
  | distinct hp name category ih =>
    exact ih.named (NameTable.distinct_sound ih.remembers name category)
  | provide hp indent name template ih => exact (ih.provide indent name template).1
  | define hp name text ih => exact ih.define name text
  | reserve hp words ih => exact ⟨ih.variablePrefix, ih.remembers, ih.helpers⟩
  | setVariableNames hp variableNames ih => exact ⟨ih.variablePrefix, ih.remembers, ih.helpers⟩
  | finish hp text ih => exact ih.finish text
  | close hp ih => exact ⟨ih.variablePrefix, ih.remembers, ih.helpers⟩

end Pass

/-! ## Steps of generation -/

namespace Gen

variable {o : Options} {lead : String}

theorem record_allows {I : Pass → Prop} (hI : ∀ p entry, I p → I (p.record entry)) (entry : Record) :
    Allows o I (record entry) fun _ => True := by
  intro p a p' hp hrun
  obtain ⟨-, -, rfl⟩ := onPass_eq_ok hrun
  exact ⟨hI p entry hp, trivial⟩

/-- The emitted name of a variable is an identifier behind the prefix. -/
theorem variableName_allows (name : String) :
    Allows o (Pass.Named (some lead)) (variableName name) fun emitted =>
      ∃ candidate, isName candidate.toList = true ∧ emitted = lead ++ candidate := by
  intro p a p' hp hrun
  obtain ⟨-, hanswer, rfl⟩ := onPass_eq_ok hrun
  have hsound := NameTable.name_sound hp.remembers name .userVariable
  refine ⟨hp.named hsound, ?_⟩
  obtain ⟨lead', candidate, hlead, hname, rfl⟩ := hsound.answer a hanswer
  have hsame : p.names.prefixFor .userVariable = .ok lead := by
    simp only [NameTable.prefixFor, hp.variablePrefix]
    rfl
  rw [hsame] at hlead
  exact ⟨candidate, hname, by rw [Except.ok.inj hlead]⟩

/-- The emitted name of a procedure is an identifier. -/
theorem procedureName_allows {lead? : Option String} (name : String) :
    Allows o (Pass.Named lead?) (procedureName name) (isName ·.toList = true) := by
  intro p a p' hp hrun
  obtain ⟨-, hanswer, rfl⟩ := onPass_eq_ok hrun
  have hsound := NameTable.name_sound hp.remembers name .procedure
  refine ⟨hp.named hsound, ?_⟩
  obtain ⟨lead', candidate, hlead, hname, rfl⟩ := hsound.answer a hanswer
  obtain rfl : lead' = "" := (Except.ok.inj hlead).symm
  rwa [String.empty_append]

/-- The emitted name of a helper is an identifier. -/
theorem helper_allows {lead? : Option String} (name : String) (template : List String) :
    Allows o (Pass.Named lead?) (helper name template) (isName ·.toList = true) := by
  refine Allows.options.bind ?_
  rintro _ rfl p a p' hp hrun
  obtain ⟨-, hanswer, rfl⟩ := onPass_eq_ok hrun
  obtain ⟨hnamed, hname⟩ := hp.provide _ name template
  exact ⟨hnamed, hname a hanswer⟩

end Gen

end BlockScript
