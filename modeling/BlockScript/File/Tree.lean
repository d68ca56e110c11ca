/-
  BlockScript.File.Tree

  A file system as a value: directories and files by their places, and the working directory.
-/
import BlockScript.File.Basic

namespace BlockScript

/-- A place in a file system: the names that lead to it from the root. -/
abbrev Place : Type := List String

/-- What is at a place. -/
inductive FileEntry where
  | directory
  | file (content : String)
  deriving DecidableEq, Repr

/-- A file system. The root is a directory and has no entry. -/
structure FileTree where
  entries : List (Place × FileEntry)
  working : Place
  deriving Repr

namespace FileTree

/-- What is at a place, if anything is. -/
def entry? (tree : FileTree) (place : Place) : Option FileEntry :=
  if place = [] then some .directory else tree.entries.lookup place

/-- Puts something at a place: what was there is exchanged, and a new entry goes to the end. -/
def put (tree : FileTree) (place : Place) (entry : FileEntry) : FileTree :=
  if (tree.entries.lookup place).isSome then
    { tree with
      entries := tree.entries.map fun (p, e) => if p = place then (p, entry) else (p, e) }
  else { tree with entries := tree.entries ++ [(place, entry)] }

/-! ## Where paths lead -/

/-- The place that a name leads to from a directory. -/
def step (place : Place) (name : String) : Place :=
  if name = ".." then place.dropLast else place ++ [name]

/-- The most bytes that a name has. -/
def longestName : Nat :=
  255

/-- The most bytes that the text of a path has. -/
def longestPath : Nat :=
  4095

/-- The place that names lead to. Everything on the way has to be a directory; the last name may
    lead to anything or nothing. A name is read once the way to it is known. -/
def follow (tree : FileTree) (place : Place) : List String → Except FileRefusal Place
  | [] => pure place
  | name :: rest =>
    match tree.entry? place with
    | some .directory =>
      if name.utf8ByteSize ≤ longestName then tree.follow (step place name) rest
      else throw .nameTooLong
    | some (.file _) => throw .notADirectory
    | none => throw .missing

/-- The place that a path leads to. -/
def place (tree : FileTree) (path : Path) : Except FileRefusal Place :=
  if path.hasZero then throw .missing
  else if path.shown.utf8ByteSize ≤ longestPath then
    tree.follow (if path.root = .working then tree.working else []) path.names
  else throw .nameTooLong

/-- What is at a path, if anything is. -/
def at? (tree : FileTree) (path : Path) : Option FileEntry :=
  (tree.place path).toOption.bind tree.entry?

/-! ## Steps -/

/-- Whether something is at a path, where that can be found out. -/
def isThere (tree : FileTree) (path : Path) : Except FileFault Bool :=
  match tree.place path with
  | .ok place => pure (tree.entry? place).isSome
  | .error .nameTooLong => throw ⟨.nameTooLong, path⟩
  | .error _ => pure false

/-- Whether a directory is at a path. -/
def isDirectory (tree : FileTree) (path : Path) : Bool :=
  tree.at? path = some .directory

/-- The text of a file, each of its line ends as one line feed. -/
def read (tree : FileTree) (path : Path) : Except FileFault String :=
  match tree.place path with
  | .error refusal => throw ⟨refusal, path⟩
  | .ok place => match tree.entry? place with
    | some (.file content) => pure (String.ofList (Text.unifyLineEnds content.toList))
    | some .directory => throw ⟨.isADirectory, path⟩
    | none => throw ⟨.missing, path⟩

/-- Makes a directory in another one, where nothing is yet. -/
def makeDirectory (tree : FileTree) (path : Path) : Except FileFault FileTree :=
  match tree.place path with
  | .error refusal => throw ⟨refusal, path⟩
  | .ok place => match tree.entry? place with
    | some _ => throw ⟨.alreadyThere, path⟩
    | none => pure (tree.put place .directory)

/-- Makes a text the content of a file, new or not. -/
def write (tree : FileTree) (path : Path) (content : String) : Except FileFault FileTree :=
  match tree.place path with
  | .error refusal => throw ⟨refusal, path⟩
  | .ok place => match tree.entry? place with
    | some .directory => throw ⟨.isADirectory, path⟩
    | _ => pure (tree.put place (.file content))

/-- A step that gives the tree another form, or is refused and leaves it as it is. -/
def change (step : FileTree → Except FileFault FileTree) :
    StateM FileTree (Except FileFault Unit) :=
  fun tree => match step tree with
    | .ok tree => (pure (), tree)
    | .error fault => (throw fault, tree)

/-- The steps of a program on a tree. -/
def access : FileAccess (StateM FileTree) where
  isThere path := fun tree => (tree.isThere path, tree)
  isDirectory path := fun tree => (tree.isDirectory path, tree)
  read path := fun tree => (tree.read path, tree)
  makeDirectory path := change (·.makeDirectory path)
  write path content := change (·.write path content)

end FileTree

end BlockScript
