/-
  BlockScript.Pass

  One pass over a workspace: its names, definitions, helpers and log. A pass that is idle refuses
  every step.
-/
import BlockScript.Options
import BlockScript.Registry

namespace BlockScript

/-- Where a pass stands. -/
inductive Stage where
  /-- No pass has begun. -/
  | idle
  /-- A pass is in progress. -/
  | running
  /-- The text is complete, but the pass was not taken down. -/
  | finished
  deriving DecidableEq, Repr

/-- The state of a pass. -/
structure Pass where
  stage : Stage
  registry : Registry
  log : Log

namespace Pass

/-- A pass that has not begun, over the names that it will use. -/
def idle (names : NameTable) : Pass :=
  { stage := .idle, registry := { names, definitions := [], helpers := [] }, log := .empty }

/-- A fresh pass over names that are used again, with the names of the variables of a workspace. -/
def start (names : NameTable) (variableNames : VariableNames) : Pass :=
  { stage := .running
    registry := { names := { names.reset with variableNames }, definitions := [], helpers := [] }
    log := .empty }

/-- The names that the pass hands out. -/
def names (p : Pass) : NameTable :=
  p.registry.names

/-- The definitions in their order. -/
def definitions (p : Pass) : Definitions :=
  p.registry.definitions

/-- Whether a pass has begun and was not taken down. -/
def isActive (p : Pass) : Bool :=
  p.stage ≠ .idle

/-! ## Steps -/

/-- Adds a record. -/
def record (p : Pass) (entry : Record) : Pass :=
  { p with log := p.log.record entry }

/-- The pass with other names. -/
def withNames (p : Pass) (names : NameTable) : Pass :=
  { p with registry := { p.registry with names } }

/-- The pass after a request for a name, and the answer. -/
def named (p : Pass) (naming : Naming) : Except Fault String × Pass :=
  (naming.answer, { p.withNames naming.table with log := p.log.recordAll naming.records })

/-- The emitted name of a name in a category. -/
def name (p : Pass) (name : String) (category : Category) : Except Fault String × Pass :=
  p.named (p.names.name name category)

/-- A name that differs from all names before. -/
def distinct (p : Pass) (name : String) (category : Category) : Except Fault String × Pass :=
  p.named (p.names.distinct name category)

/-- Provides a helper and tells its emitted name. -/
def provide (p : Pass) (indent : Except Fault String) (name : String) (template : List String) :
    Except Fault String × Pass :=
  let provision := p.registry.provide indent name template
  (provision.answer,
    { p with registry := provision.registry, log := p.log.recordAll provision.records })

/-- Sets the text of a procedure. A second text for a name takes the place of the first, with a
    warning. -/
def define (p : Pass) (name text : String) : Pass :=
  let key := Definitions.procedureKey name
  let log :=
    if p.definitions.hasKey key then
      p.log.warn ("Procedure " ++ name ++ " defined more than once")
    else p.log
  { p with
    registry := { p.registry with definitions := p.definitions.set key text }
    log := log.record ⟨.procedure, none, name, ""⟩ }

/-- Completes the text: the definitions, an empty line between each two, go ahead of the main text.
    The pass keeps nothing but its log. -/
def finish (p : Pass) (text : String) : Except Fault String × Pass :=
  if p.stage = .finished then (throw .passFinished, p)
  else
    (pure (Text.join "\n\n" p.definitions.texts ++ "\n\n\n" ++ text),
      { p with
        stage := .finished
        registry := { names := p.names.reset, definitions := [], helpers := [] } })

/-- Takes the pass down. -/
def close (p : Pass) : Pass :=
  { p with stage := .idle }

end Pass

end BlockScript
