/-
  BlockScript.Generate.Monad

  Generation steps. A step reads the settings, works on the pass and may fail; what it did before a
  fault stays done. A step that needs the pass fails if none is in progress.
-/
import BlockScript.Block.Basic
import BlockScript.Pass

namespace BlockScript

/-- A step of generation. -/
abbrev Gen : Type → Type := ReaderT Options (EStateM Fault Pass)

namespace Gen

/-- The settings. -/
def options : Gen Options :=
  read

/-- A step that may fail and leaves the pass alone. -/
def lift {α : Type} : Except Fault α → Gen α
  | .ok a => pure a
  | .error fault => throw fault

/-- A step on the pass in progress. -/
def onPass {α : Type} (step : Pass → Except Fault α × Pass) : Gen α := do
  let p ← get
  if p.isActive then
    let (answer, p') := step p
    set p'
    lift answer
  else throw .noPass

/-- Fails if no pass is in progress. -/
def requirePass : Gen Unit :=
  onPass fun p => (pure (), p)

/-- Adds a record. -/
def record (entry : Record) : Gen Unit :=
  onPass fun p => (pure (), p.record entry)

/-- The emitted name of a variable, by its id or its name. -/
def variableName (name : String) : Gen String :=
  onPass fun p => p.name name .userVariable

/-- The emitted name of a procedure. -/
def procedureName (name : String) : Gen String :=
  onPass fun p => p.name name .procedure

/-- The emitted name of a helper, which is defined at its first use. -/
def helper (name : String) (template : List String) : Gen String := do
  let options ← options
  onPass fun p => p.provide options.indentText name template

/-- Sets the text of a procedure. -/
def define (name text : String) : Gen Unit :=
  onPass fun p => (pure (), p.define name text)

end Gen

end BlockScript
