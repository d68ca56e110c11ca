/-
  BlockScript.File.Basic

  What a program asks of a file system, and how a file system refuses.
-/
import BlockScript.File.Path
import BlockScript.Json.Shown

namespace BlockScript

/-- Why a file system refuses a step. -/
inductive FileRefusal where
  | missing
  | notPermitted
  | alreadyThere
  | notADirectory
  | isADirectory
  | nameTooLong
  deriving DecidableEq, Repr

/-- A step on a path that a file system refused. -/
structure FileFault where
  refusal : FileRefusal
  path : Path
  deriving DecidableEq, Repr

namespace FileRefusal

/-- The number of a refusal. -/
def number : FileRefusal → Nat
  | missing => 2
  | notPermitted => 13
  | alreadyThere => 17
  | notADirectory => 20
  | isADirectory => 21
  | nameTooLong => 36

/-- The wording of a refusal. -/
def message : FileRefusal → String
  | missing => "No such file or directory"
  | notPermitted => "Permission denied"
  | alreadyThere => "File exists"
  | notADirectory => "Not a directory"
  | isADirectory => "Is a directory"
  | nameTooLong => "File name too long"

end FileRefusal

/-- The wording of a refused step. -/
def FileFault.message (fault : FileFault) : String :=
  "[Errno " ++ toString fault.refusal.number ++ "] " ++ fault.refusal.message ++ ": "
    ++ Text.quoted fault.path.shown

/-- The steps that a program takes on a file system. -/
structure FileAccess (m : Type → Type) where
  /-- Whether something is at a path, where that can be found out. -/
  isThere : Path → m (Except FileFault Bool)
  /-- Whether a directory is at a path. -/
  isDirectory : Path → m Bool
  /-- The text of a file, each of its line ends as one line feed. -/
  read : Path → m (Except FileFault String)
  /-- Makes a directory in another one, where nothing is yet. -/
  makeDirectory : Path → m (Except FileFault Unit)
  /-- Makes a text the content of a file, new or not. -/
  write : Path → String → m (Except FileFault Unit)

namespace FileAccess

variable {m : Type → Type} [Monad m]

/-- Passes over a fault of making a directory if the directory is there. -/
def unlessThere (files : FileAccess m) (path : Path) (made : Except FileFault Unit) :
    m (Except FileFault Unit) := do
  match made with
  | .ok _ => return pure ()
  | .error fault => if ← files.isDirectory path then return pure () else return throw fault

/-- Makes a directory, from the names of its path in reverse, and the directories above it that are
    missing. One that is there stays. -/
def makeFromLast (files : FileAccess m) (root : Path.Root) : List String → m (Except FileFault Unit)
  | [] => return pure ()
  | name :: above => do
    let path : Path := ⟨root, (name :: above).reverse⟩
    match ← files.makeDirectory path with
    | .error ⟨.missing, _⟩ => match ← files.makeFromLast root above with
      | .ok _ => files.unlessThere path (← files.makeDirectory path)
      | .error fault => return throw fault
    | made => files.unlessThere path made

/-- Makes a directory and the directories above it that are missing. One that is there stays. -/
def makeAll (files : FileAccess m) (path : Path) : m (Except FileFault Unit) :=
  files.makeFromLast path.root path.names.reverse

end FileAccess

end BlockScript
