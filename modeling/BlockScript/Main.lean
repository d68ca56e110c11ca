/-
  BlockScript.Main

  The program: the command line over the file system of the machine.
-/
import BlockScript.CommandLine.Run

namespace BlockScript.CommandLine

/-- The refusal that an error of the machine stands for. -/
def refusalOf : IO.Error → FileRefusal
  | .noFileOrDirectory .. => .missing
  | .alreadyExists .. => .alreadyThere
  | .inappropriateType _ code _ => if code = 20 then .notADirectory else .isADirectory
  | .invalidArgument _ 36 _ => .nameTooLong
  | _ => .notPermitted

/-- A step on a path of the machine, and its refusal if it fails. -/
def attemptOn {α : Type} (path : Path) (step : IO α) : IO (Except FileFault α) := do
  match ← step.toBaseIO with
  | .ok a => return pure a
  | .error error => return throw ⟨refusalOf error, path⟩

/-- Reads the first byte at a path of the machine. -/
def probe (path : Path) : IO (Except FileFault ByteArray) :=
  attemptOn path do (← IO.FS.Handle.mk path.shown .read).read 1

/-- The file system of the machine. -/
def machineFiles : FileAccess IO where
  isThere path := do
    match ← probe path with
    | .ok _ => return pure true
    | .error fault => match fault.refusal with
      | .missing | .notADirectory => return pure false
      | .nameTooLong => return throw fault
      | _ => return pure true
  isDirectory path := do
    match ← probe path with
    | .ok _ => return false
    | .error fault => return fault.refusal = .isADirectory
  read path := attemptOn path do
    return String.ofList (Text.unifyLineEnds (← IO.FS.readFile path.shown).toList)
  makeDirectory path := attemptOn path (IO.FS.createDir path.shown)
  write path text := attemptOn path (IO.FS.writeFile path.shown text)

/-- What is told of a run that broke off. -/
def Breakdown.message : Breakdown → String
  | unclearInput fault => fault.message
  | noDestination => "There is no path to write to."
  | zeroInPath => "A zero character is in the path to write to."
  | loneHalf => "The input has half of a character."
  | endlessWrap => "Comments cannot be wrapped at a column that is NaN."

/-- How the program is called. -/
def usage : String :=
  "usage: blockscript [-h] [-o OUTPUT] [--zero-based] [-v] input\n"

/-- Runs the command line and gives the exit status. -/
def runArguments (arguments : List String) : IO UInt32 := do
  match Request.ofArguments arguments with
  | .help =>
    IO.print usage
    return 0
  | .misuse =>
    IO.eprint usage
    return 2
  | .generate job => match ← job.run machineFiles with
    | .ok outcome =>
      IO.print outcome.stdout
      IO.eprint outcome.stderr
      return outcome.status.toUInt32
    | .error breakdown =>
      IO.eprintln breakdown.message
      return 1

end BlockScript.CommandLine

/-- Runs the command line. -/
def main (arguments : List String) : IO UInt32 :=
  BlockScript.CommandLine.runArguments arguments
