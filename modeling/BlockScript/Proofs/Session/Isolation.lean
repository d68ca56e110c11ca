/-
  BlockScript.Proofs.Session.Isolation

  The passes of a generator do not touch each other. Whatever was called on a generator before, in
  any order and with any faults, a program text comes out as from a generator that was not used:
  answer, log and the generator that is left are the same.

  The one thing that a generator hands from pass to pass is its table of names, and of that a new
  pass takes the reserved words and the prefix of variables only. No step of generation changes
  either, so `Session.Serves` holds after every call.
-/
import BlockScript.Proofs.Generate.Composed

namespace BlockScript

/-! ## Names -/

namespace NameTable

/-- Two tables of one set of reserved words with one prefix. A reset makes them equal. -/
def Alike (t t' : NameTable) : Prop :=
  t.reserved = t'.reserved ∧ t.variablePrefix? = t'.variablePrefix?

theorem Alike.reset_eq {t t' : NameTable} (h : t.Alike t') : t.reset = t'.reset := by
  rw [reset, reset, h.1, h.2]

theorem alike_reset (t : NameTable) : t.reset.Alike t :=
  ⟨rfl, rfl⟩

/-- A request for a name touches neither the reserved words nor the prefix. -/
theorem alike_name (t : NameTable) (name : String) (category : Category) :
    (t.name name category).table.Alike t := by
  rw [NameTable.name]
  dsimp only
  -- The name is remembered already, or it is found now and remembered if it can be answered.
  split
  · exact ⟨rfl, rfl⟩
  · split
    · exact ⟨rfl, rfl⟩
    · exact ⟨rfl, rfl⟩

theorem alike_distinct (t : NameTable) (name : String) (category : Category) :
    (t.distinct name category).table.Alike t :=
  ⟨rfl, rfl⟩

theorem Alike.trans {t t' t'' : NameTable} (h : t.Alike t') (h' : t'.Alike t'') : t.Alike t'' :=
  ⟨h.1.trans h'.1, h.2.trans h'.2⟩

end NameTable

namespace Pass

theorem start_eq_of_alike {t t' : NameTable} (h : t.Alike t') (variableNames : VariableNames) :
    start t variableNames = start t' variableNames := by
  rw [start, start, h.reset_eq]

/-- A helper gets a name from the table, or has one. -/
theorem alike_provide (p : Pass) (indent : Except Fault String) (name : String)
    (template : List String) : (p.provide indent name template).2.names.Alike p.names := by
  have hdistinct := NameTable.alike_distinct p.registry.names name .procedure
  simp only [names, provide, Registry.provide]
  cases p.registry.helpers.lookup name with
  | some emitted => exact ⟨rfl, rfl⟩
  | none =>
    -- The name is taken from the table first, whatever fails behind that.
    cases (p.registry.names.distinct name .procedure).answer with
    | error fault => exact hdistinct
    | ok emitted =>
      cases indent with
      | error fault => exact hdistinct
      | ok indent => exact hdistinct

/-- The steps on a pass keep the reserved words and the prefix. -/
theorem isInvariant_alike (t : NameTable) : IsInvariant fun p => p.names.Alike t where
  record _ _ h := h
  name p name category h := (NameTable.alike_name p.names name category).trans h
  provide p indent name template h := (p.alike_provide indent name template).trans h
  define _ _ _ h := h

/-- To complete the text resets the names, if it does anything. -/
theorem alike_finish (p : Pass) (text : String) : (p.finish text).2.names.Alike p.names := by
  rw [finish]
  split
  · exact ⟨rfl, rfl⟩
  · exact p.names.alike_reset

end Pass

namespace Session

/-! ## Calls -/

/-- A generator that has not been used, over a table of names. -/
def unused (options : Options) (names : NameTable) : Session :=
  { options, pass := .idle names, lastLog? := none }

theorem new_eq_unused (options : Options) :
    new options = unused options (.new reservedWords options.variablePrefix?) := rfl

/-- What can be called on a generator. -/
inductive Call where
  /-- A new pass, with the names of the variables. -/
  | begin (variableNames : VariableNames)
  /-- The code of a block, or of none. -/
  | code (block? : Option Block) (attached alone : Bool)
  /-- The end of the pass in progress, with the main text. -/
  | finish (text : String)
  /-- The program text of a workspace. -/
  | program (workspace : Workspace)

/-- The generator after a call, whether the call fails or not. -/
def call (s : Session) : Call → Session
  | .begin variableNames => s.begin variableNames
  | .code none _ _ => s
  | .code (some b) attached alone => (s.run (b.code attached alone)).2
  | .finish text => (s.finish text).2
  | .program workspace => (s.programText workspace).2

/-- The generator after calls in their order. -/
def after (s : Session) (calls : List Call) : Session :=
  calls.foldl call s

/-- The step that a pass over a workspace consists of. -/
def program (workspace : Workspace) : Gen String := do
  let text ← mainText workspace.blocks
  Gen.onPass fun p => p.finish text

/-- The answer of the step: its text, tidied, or its fault. -/
def answer : EStateM.Result Fault Pass String → Except Fault String
  | .ok text _ => .ok (Text.tidy text)
  | .error fault _ => .error fault

theorem answer_eq_ok {result : EStateM.Result Fault Pass String} {out : String}
    (h : answer result = .ok out) : ∃ text p, result = .ok text p ∧ out = Text.tidy text := by
  cases result with
  | ok text p => exact ⟨text, p, rfl, (Except.ok.inj h).symm⟩
  | error fault p => cases h

/-- The pass over a workspace at the end of its step, on a table of names. -/
def passOver (options : Options) (names : NameTable) (workspace : Workspace) : Pass :=
  Gen.passAfter options (program workspace) (.start names workspace.variableNames)

theorem run_snd {α : Type} (s : Session) (m : Gen α) :
    (s.run m).2 = { s with pass := Gen.passAfter s.options m s.pass } := by
  rw [run, Gen.passAfter]
  cases m s.options s.pass <;> rfl

/-! ## What calls keep -/

/-- A generator with settings, whose next pass is over the reserved words and the prefix of a
    table. -/
structure Serves (options : Options) (names : NameTable) (s : Session) : Prop where
  options : s.options = options
  names : s.pass.names.Alike names

variable {options : Options} {names : NameTable} {s : Session}

theorem serves_unused (options : Options) (names : NameTable) :
    (unused options names).Serves options names :=
  ⟨rfl, rfl, rfl⟩

theorem Serves.begin (h : s.Serves options names) (variableNames : VariableNames) :
    (s.begin variableNames).Serves options names := by
  have hreset : (s.begin variableNames).pass.names.Alike s.pass.names := ⟨rfl, rfl⟩
  exact ⟨h.options, hreset.trans h.names⟩

theorem Serves.close (h : s.Serves options names) : s.close.Serves options names :=
  ⟨h.options, h.names⟩

/-- A step keeps what a generator is for if it keeps the reserved words and the prefix. -/
theorem Serves.run {α : Type} {m : Gen α} (h : s.Serves options names)
    (hm : Gen.Keeps (fun p => p.names.Alike names) options m) :
    (s.run m).2.Serves options names := by
  rw [run_snd, h.options]
  exact ⟨rfl, hm s.pass h.names⟩

theorem keeps_code (b : Block) (attached alone : Bool) :
    Gen.Keeps (fun p => p.names.Alike names) options (b.code attached alone) :=
  (b.code_composed attached alone).keeps (Pass.isInvariant_alike names)

theorem keeps_finish (text : String) :
    Gen.Keeps (fun p => p.names.Alike names) options (Gen.onPass fun p => p.finish text) :=
  Gen.keeps_onPass fun p hp => (p.alike_finish text).trans hp

theorem keeps_program (workspace : Workspace) :
    Gen.Keeps (fun p => p.names.Alike names) options (program workspace) := by
  have hmain := (mainText_composed workspace.blocks).keeps (o := options)
    (Pass.isInvariant_alike names)
  exact hmain.bind keeps_finish

theorem Serves.finish (h : s.Serves options names) (text : String) :
    (s.finish text).2.Serves options names := by
  have hrun := h.run (keeps_finish text)
  rw [Session.finish]
  cases hanswer : s.run (Gen.onPass fun p => p.finish text) with
  | mk answer s' =>
    rw [hanswer] at hrun
    cases answer with
    | ok text => exact hrun.close
    | error fault => exact hrun

/-- A pass over a workspace is begun, runs and is taken down. -/
theorem Serves.programText (h : s.Serves options names) (workspace : Workspace) :
    (s.programText workspace).2.Serves options names := by
  have hrun := (h.begin workspace.variableNames).run (keeps_program workspace)
  exact hrun.close

theorem Serves.call (h : s.Serves options names) (c : Call) : (s.call c).Serves options names := by
  cases c with
  | «begin» variableNames => exact h.begin variableNames
  | code block? attached alone =>
    cases block? with
    | none => exact h
    | some b => exact h.run (keeps_code b attached alone)
  | finish text => exact h.finish text
  | program workspace => exact h.programText workspace

/-- Every history of calls keeps what a generator is for. -/
theorem Serves.after (h : s.Serves options names) (calls : List Call) :
    (s.after calls).Serves options names := by
  induction calls generalizing s with
  | nil => exact h
  | cons c rest ih => exact ih (h.call c)

/-! ## Program texts -/

/-- The answer of a program text and the generator behind it come from the pass over the workspace
    alone. -/
theorem programText_eq (s : Session) (workspace : Workspace) :
    s.programText workspace =
      (answer (program workspace s.options (.start s.pass.names workspace.variableNames)),
      { options := s.options
        pass := (passOver s.options s.pass.names workspace).close
        lastLog? := some (passOver s.options s.pass.names workspace).log }) := by
  have hprogram : s.programText workspace =
      (((s.begin workspace.variableNames).run (program workspace)).1.map Text.tidy,
        ((s.begin workspace.variableNames).run (program workspace)).2.close) := rfl
  rw [hprogram, run_snd, run]
  -- The answer is read off the result of the step, and the generator off the pass it leaves.
  apply Prod.ext
  · have hpass : (s.begin workspace.variableNames).pass =
        .start s.pass.names workspace.variableNames := rfl
    have hoptions : (s.begin workspace.variableNames).options = s.options := rfl
    rw [hpass, hoptions]
    cases program workspace s.options (.start s.pass.names workspace.variableNames) <;> rfl
  · rfl

/-- Generators that serve the same settings and names give the same. -/
theorem Serves.programText_eq (h : s.Serves options names) (workspace : Workspace) :
    s.programText workspace = (unused options names).programText workspace := by
  have hstart : Pass.start s.pass.names workspace.variableNames =
      .start names workspace.variableNames := Pass.start_eq_of_alike h.names _
  have hnames : (unused options names).pass.names = names := rfl
  rw [Session.programText_eq, Session.programText_eq, passOver, passOver, hnames, hstart, h.options]
  rfl

/-- After any history of calls a program text is that of a generator that has not been used: the
    same text or the same fault, and the same generator is left. No pass is in progress then, and the
    last log is that of the pass over the workspace, which began with nothing. -/
theorem programText_after (options : Options) (names : NameTable) (calls : List Call)
    (workspace : Workspace) :
    let fresh := unused options names
    let result := (fresh.after calls).programText workspace
    result = fresh.programText workspace ∧
      result.2.pass.isActive = false ∧
      result.2.lastLog? = some (passOver options names workspace).log := by
  intro fresh result
  have hserves : (fresh.after calls).Serves options names := (serves_unused options names).after calls
  have hresult : result = fresh.programText workspace := hserves.programText_eq workspace
  refine ⟨hresult, ?_, ?_⟩
  · rw [hresult, Session.programText_eq]
    rfl
  · rw [hresult, Session.programText_eq]
    rfl

end Session

/-- A program text is what the pass over the workspace comes to, tidied. -/
theorem Workspace.programText_eq (w : Workspace) (o : Options) :
    w.programText o =
      Session.answer
        (Session.program w o (.start (.new reservedWords o.variablePrefix?) w.variableNames)) :=
  congrArg Prod.fst (Session.programText_eq (.new o) w)

/-- A program is its definitions and its main text, tidied. -/
theorem exists_mainText {w : Workspace} {o : Options} {out : String} (h : w.programText o = .ok out) :
    ∃ text p, Session.mainText w.blocks o
        (.start (.new reservedWords o.variablePrefix?) w.variableNames) = .ok text p ∧
      out = Text.tidy (Text.join "\n\n" p.definitions.texts ++ "\n\n\n" ++ text) := by
  rw [w.programText_eq] at h
  obtain ⟨answer, p', hrun, rfl⟩ := Session.answer_eq_ok h
  obtain ⟨text, p, hmain, hfinish⟩ := Gen.bind_eq_ok hrun
  refine ⟨text, p, hmain, congrArg Text.tidy ?_⟩
  obtain ⟨-, hfinished, -⟩ := Gen.onPass_eq_ok hfinish
  rw [Pass.finish] at hfinished
  split at hfinished
  · cases hfinished
  · exact (Except.ok.inj hfinished).symm

end BlockScript
