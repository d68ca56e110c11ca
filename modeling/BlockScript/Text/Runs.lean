/-
  BlockScript.Text.Runs

  Classes of characters as runs of code points.
-/

namespace BlockScript.Text

/-- Whether a character is in one of some runs, each given by its first and last code point. -/
def isInRuns (runs : List (Nat × Nat)) (c : Char) : Bool :=
  runs.any fun run => run.1 ≤ c.toNat && c.toNat ≤ run.2

end BlockScript.Text
