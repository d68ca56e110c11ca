/-
  BlockScript.Proofs.Helper.Routine

  The routines that the code of values calls: the helpers, each with its name, its parameters and its
  text. Five rules write a call, and all of them do so in one way: the routine is asked for, and its
  emitted name goes ahead of the arguments.
-/
import BlockScript.Proofs.Generate.Value

namespace BlockScript

/-- A routine that the code of values calls. -/
inductive Routine where
  | randomLetter
  | subsequence (start stop : Site.Edge)
  | titleCase
  | count
  | replace
  deriving DecidableEq, Repr

namespace Routine

/-! ## Texts -/

/-- The name under which the routine is asked for. -/
def name : Routine → String
  | randomLetter => "textRandomLetter"
  | subsequence start stop =>
    "subsequence" ++ Site.edgeName "First" start ++ Site.edgeName "Last" stop
  | titleCase => "textToTitleCase"
  | count => "textCount"
  | replace => "textReplace"

/-- The parameters of the routine. -/
def parameters : Routine → List String
  | randomLetter => ["text"]
  | subsequence start stop => ["sequence"] ++ (if start = .outermost then [] else ["at1"])
    ++ (if stop = .outermost then [] else ["at2"])
  | titleCase => ["str"]
  | count => ["haystack", "needle"]
  | replace => ["haystack", "needle", "replacement"]

/-- The template of the text of the routine. -/
def template : Routine → List String
  | randomLetter => [
    "function " ++ Helper.nameMark ++ "(text) \x7b",
    "  var x = Math.floor(Math.random() * text.length);",
    "  return text[x];",
    "\x7d"]
  | subsequence start stop => Site.subsequenceTemplate start stop
  | titleCase => [
    "function " ++ Helper.nameMark ++ "(str) \x7b",
    "  return str.replace(/\\S+/g,",
    "      function(txt) \x7breturn txt[0].toUpperCase() + txt.substring(1).toLowerCase();\x7d);",
    "\x7d"]
  | count => [
    "function " ++ Helper.nameMark ++ "(haystack, needle) \x7b",
    "  if (needle.length === 0) \x7b",
    "    return haystack.length + 1;",
    "  \x7d else \x7b",
    "    return haystack.split(needle).length - 1;",
    "  \x7d",
    "\x7d"]
  | replace => [
    "function " ++ Helper.nameMark ++ "(haystack, needle, replacement) \x7b",
    "  needle = needle.replace(/([-()\\[\\]\x7b\x7d+?*.$\\^|,:#<!\\\\])/g,\"\\\\$1\")",
    "                 .replace(/\\x08/g,\"\\\\x08\");",
    "  return haystack.replace(new RegExp(needle, 'g'), replacement);",
    "\x7d"]

/-! ## Names -/

/-- Every routine. -/
def all : List Routine :=
  [randomLetter, titleCase, count, replace]
    ++ [.outermost, .fromStart, .fromEnd].flatMap fun start =>
      [.outermost, .fromStart, .fromEnd].map fun stop => subsequence start stop

theorem mem_all (routine : Routine) : routine ∈ all := by
  cases routine with
  | subsequence start stop => cases start <;> cases stop <;> decide
  | randomLetter | titleCase | count | replace => decide

/-- Two routines of one name are one routine. -/
theorem name_inj {routine routine' : Routine} (h : routine.name = routine'.name) :
    routine = routine' := by
  have hchecked : ∀ r ∈ all, ∀ r' ∈ all, Routine.name r = Routine.name r' → r = r' := by
    decide +kernel
  exact hchecked _ routine.mem_all _ routine'.mem_all h

end Routine

/-! ## Calls -/

/-- A call of a routine, which is defined at its first call. -/
def Gen.callRoutine (routine : Routine) (arguments : List String) : Gen Expression := do
  let name ← Gen.helper routine.name routine.template
  return (name ++ "(" ++ Text.join ", " arguments ++ ")", .functionCall)

namespace Site

open Gen (callRoutine)

variable (site : Site)

theorem helperSubstring_eq_callRoutine (text : String) (start stop : Edge) :
    site.helperSubstring text start stop = (do
      let first ← site.edgeArgument "AT1" start
      let last ← site.edgeArgument "AT2" stop
      callRoutine (.subsequence start stop) ([text] ++ first ++ last)) :=
  helperSubstring_eq site text start stop

theorem count_eq_callRoutine :
    site.count = (do
      let text ← site.textValue "TEXT"
      let part ← site.textValue "SUB"
      callRoutine .count [text, part]) := by
  simp only [count, callRoutine, Text.join, String.append_assoc]
  rfl

theorem replace_eq_callRoutine :
    site.replace = (do
      let text ← site.textValue "TEXT"
      let old ← site.textValue "FROM"
      let new ← site.textValue "TO"
      callRoutine .replace [text, old, new]) := by
  simp only [replace, callRoutine, Text.join, String.append_assoc]
  rfl

end Site

end BlockScript
