/-
  BlockScript.CommandLine.Run

  A run from the command line: the workspace is read, its program text is generated, and the text
  is written to the output path or to the standard output. Nothing is written before the whole text
  is known.
-/
import BlockScript.CommandLine.Arguments
import BlockScript.File.Basic
import BlockScript.Session

namespace BlockScript

/-- The workspace in a file. -/
def Workspace.ofFile {m : Type → Type} [Monad m] (files : FileAccess m) (path : Path) :
    m (Except Fault Workspace) := do
  match ← files.isThere path with
  | .error fault => return throw (.unreadable fault)
  | .ok false => return throw (.noFile path)
  | .ok true => match ← files.read path with
    | .error fault => return throw (.unreadable fault)
    | .ok text => match Workspace.read path text 1 with
      | .ok workspace _ => return pure workspace
      | .error fault _ => return throw fault

namespace CommandLine

/-- What the user gets back from a run. -/
structure Outcome where
  status : Nat
  stdout : String
  stderr : String
  deriving DecidableEq, Repr

/-- Why a run breaks off and gives no outcome. -/
inductive Breakdown where
  /-- Whether there is an input cannot be found out. -/
  | unclearInput (fault : FileFault)
  /-- There is a text to write and no path to write it to. -/
  | noDestination
  /-- A zero character is in the output path. -/
  | zeroInPath
  /-- The input has half of a character, and no text here holds it. -/
  | loneHalf
  /-- A comment is wrapped at a width that is NaN, which does not come to an end. -/
  | endlessWrap
  deriving DecidableEq, Repr

/-- Why a run breaks off at a fault, if it does. -/
def Breakdown.ofFault? : Fault → Option Breakdown
  | .loneHalf => some .loneHalf
  | .endlessWrap => some .endlessWrap
  | _ => none

/-- The program text of a workspace under the options of a job, and the log. -/
def generate (job : Job) (workspace : Workspace) : Except Fault (String × Log) :=
  let options := workspace.options
  let options :=
    if job.zeroBased then { options with oneBasedIndex := .bool false } else options
  let (text, session) := (Session.new options).programText workspace
  text.map fun text => (text, session.lastLog?.getD .empty)

/-- The report of a run that gave no text. The cause is told if the workspace is to blame. -/
def failureReport (input : Path) (fault : Fault) : String :=
  "Error generating Rego from " ++ input.shown ++ ":"
    ++ (if fault.isMalformed then " " ++ fault.message?.getD "" else "") ++ "\n"

/-- Why a text did not get to its path. -/
inductive DeliveryFault where
  | refused (fault : FileFault)
  /-- A zero character is in the path. -/
  | zeroInPath
  deriving DecidableEq, Repr

/-- Writes a text to a path, in a directory that is made if it is missing. The path of the directory
    is looked at before the directory is made, and the name of the file after that. -/
def deliver {m : Type → Type} [Monad m] (files : FileAccess m) (path : Path) (text : String) :
    m (Except DeliveryFault Unit) := do
  if path.parent.hasZero then return throw .zeroInPath
  match ← files.makeAll path.parent with
  | .error fault => return throw (.refused fault)
  | .ok _ =>
    if path.hasZero then return throw .zeroInPath
    return (← files.write path text).mapError .refused

/-- Puts a program text where a job wants it. -/
def Job.finish {m : Type → Type} [Monad m] (files : FileAccess m) (job : Job) (text : String)
    (log : Log) : m (Except Breakdown Outcome) := do
  let summary := if job.verbose then log.summary ++ "\n" else ""
  match job.destination with
  | .standard => return pure ⟨0, text, summary⟩
  | .nowhere => return throw .noDestination
  | .file path => match ← deliver files path text with
    | .ok _ =>
      let note := if job.verbose then "Generated: " ++ path.shown ++ "\n" else ""
      return pure ⟨0, "", summary ++ note⟩
    | .error (.refused fault) =>
      return pure ⟨1, "", summary ++ "Error: Cannot write output file " ++ path.shown ++ ": "
        ++ fault.message ++ "\n"⟩
    | .error .zeroInPath => return throw .zeroInPath

/-- Runs a job. -/
def Job.run {m : Type → Type} [Monad m] (files : FileAccess m) (job : Job) :
    m (Except Breakdown Outcome) := do
  match ← files.isThere job.input with
  | .error fault => return throw (.unclearInput fault)
  | .ok false =>
    return pure ⟨1, "", "Error: Input file not found: " ++ job.input.shown ++ "\n"⟩
  | .ok true => match (← Workspace.ofFile files job.input).bind (generate job) with
    | .error fault => match Breakdown.ofFault? fault with
      | some breakdown => return throw breakdown
      | none => return pure ⟨1, "", failureReport job.input fault⟩
    | .ok (text, log) => job.finish files text log

end CommandLine

end BlockScript
