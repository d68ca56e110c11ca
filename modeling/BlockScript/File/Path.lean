/-
  BlockScript.File.Path

  Paths as users write them: names between slashes. Repeated slashes and single dots say nothing and
  are dropped; two dots stay, since only the file system knows where they lead.
-/
import BlockScript.Text.Lines

namespace BlockScript

/-- Where a path begins. -/
inductive Path.Root where
  /-- At the working directory. -/
  | working
  /-- At the root of the file system. -/
  | slash
  /-- At the root, written with exactly two slashes. -/
  | doubleSlash
  deriving DecidableEq, Repr

/-- A path: where it begins and the names that lead on from there. -/
structure Path where
  root : Path.Root
  names : List String
  deriving DecidableEq, Repr

namespace Path

/-- The beginning of a path by the number of slashes ahead of it. -/
def Root.ofSlashes : Nat → Root
  | 0 => working
  | 2 => doubleSlash
  | _ => slash

/-- The text of a beginning. -/
def Root.text : Root → String
  | working => ""
  | slash => "/"
  | doubleSlash => "//"

/-- The path that a text writes. -/
def parse (s : String) : Path :=
  let chars := s.toList
  let pieces := (Text.splitOn '/' chars).map String.ofList
  { root := Root.ofSlashes (chars.takeWhile (· = '/')).length
    names := pieces.filter fun piece => piece ≠ "" && piece ≠ "." }

/-- The text of a path; the working directory itself is a dot. -/
def shown (p : Path) : String :=
  if p.root = .working && p.names.isEmpty then "."
  else p.root.text ++ Text.join "/" p.names

/-- The path without its last name. -/
def parent (p : Path) : Path :=
  { p with names := p.names.dropLast }

/-- Whether a zero character is in a path. No file system takes such a path. -/
def hasZero (p : Path) : Bool :=
  p.names.any fun name => name.toList.contains '\x00'

end Path

end BlockScript
