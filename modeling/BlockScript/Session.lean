/-
  BlockScript.Session

  A generator that is used for one pass after another. The passes share the reserved words and
  nothing else; the log of the last completed pass is kept.
-/
import BlockScript.Generate.Block
import BlockScript.Text.Tidy
import BlockScript.Workspace

namespace BlockScript

/-- A generator: its settings, the pass in progress if there is one, and the last log. -/
structure Session where
  options : Options
  pass : Pass
  lastLog? : Option Log

namespace Session

/-- A generator that has not been used. -/
def new (options : Options) : Session :=
  { options, pass := .idle (.new reservedWords options.variablePrefix?), lastLog? := none }

/-- Begins a pass; one in progress is given up. -/
def begin (s : Session) (variableNames : VariableNames) : Session :=
  { s with pass := .start s.pass.names variableNames }

/-- Runs a step on the pass in progress. -/
def run {α : Type} (s : Session) (step : Gen α) : Except Fault α × Session :=
  match step s.options s.pass with
  | .ok a pass => (pure a, { s with pass })
  | .error fault pass => (throw fault, { s with pass })

/-- Takes the pass in progress down and keeps its log. -/
def close (s : Session) : Session :=
  { s with pass := s.pass.close, lastLog? := some s.pass.log }

/-- Completes the text of the pass in progress and takes it down. -/
def finish (s : Session) (text : String) : Except Fault String × Session :=
  match s.run (Gen.onPass fun p => p.finish text) with
  | (.ok text, s) => (pure text, s.close)
  | (.error fault, s) => (throw fault, s)

/-- The step that yields the main text of a workspace: the lines of its blocks. -/
def mainText (blocks : List Block) : Gen String := do
  let lines ← blocks.mapM Block.topLevelLine
  return Text.join "\n" (lines.filterMap fun line => line)

/-- The program text of a workspace, by a pass of its own. The pass is over afterwards, whether it
    failed or not. -/
def programText (s : Session) (workspace : Workspace) : Except Fault String × Session :=
  let (answer, s) := (s.begin workspace.variableNames).run do
    let text ← mainText workspace.blocks
    Gen.onPass fun p => p.finish text
  (answer.map Text.tidy, s.close)

end Session

/-- The program text of a workspace under settings. -/
def Workspace.programText (workspace : Workspace) (options : Options) : Except Fault String :=
  ((Session.new options).programText workspace).1

end BlockScript
