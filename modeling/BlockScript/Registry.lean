/-
  BlockScript.Registry

  The definitions that go ahead of the main text. Helpers are routines that rules ask for by name;
  each is defined once, from a template in which a mark stands for the name it gets.
-/
import BlockScript.Name.Table
import BlockScript.Text.Lines

namespace BlockScript

/-! ## Definitions -/

/-- Texts by keys, in the order of the first use of a key. -/
abbrev Definitions : Type := List (String × String)

namespace Definitions

/-- Sets the text of a key: a new key goes to the end, a present one keeps its place. -/
def set (key text : String) : Definitions → Definitions
  | [] => [(key, text)]
  | (k, t) :: rest => if k = key then (k, text) :: rest else (k, t) :: set key text rest

/-- Drops a key. -/
def erase (definitions : Definitions) (key : String) : Definitions :=
  definitions.filter (·.1 ≠ key)

/-- Whether a key has a text. -/
def hasKey (definitions : Definitions) (key : String) : Bool :=
  definitions.any (·.1 = key)

/-- The texts in their order. -/
def texts (definitions : Definitions) : List String :=
  definitions.map (·.2)

/-- The key of a helper. -/
def helperKey (name : String) : String :=
  "helper%" ++ name

/-- The key of a procedure. -/
def procedureKey (name : String) : String :=
  "%" ++ name

end Definitions

/-! ## Templates -/

namespace Helper

/-- The mark that stands for the emitted name in a template. -/
def nameMark : String :=
  "\x7bleCUI8hutHZI4480Dc\x7d"

/-- A line with every two of its leading spaces exchanged for an indent, and every null character
    behind them too. -/
def reindentLine (indent : List Char) (line : List Char) : List Char :=
  let spaces := (line.takeWhile (· = ' ')).length
  (List.replicate (spaces / 2) indent).flatten ++ List.replicate (spaces % 2) ' '
    ++ (line.dropWhile (· = ' ')).flatMap fun c => if c = '\x00' then indent else [c]

/-- A template with two leading spaces for each indent, in an indent of the user's choice. -/
def reindent (indent : String) (text : String) : String :=
  if indent = "  " then text
  else Text.join "\n"
    ((Text.lines text.toList).map fun line => String.ofList (reindentLine indent.toList line))

/-- The text of a helper under its emitted name. -/
def instantiate (template : List String) (emitted : String) : String :=
  Text.replace (Text.join "\n" template) nameMark emitted

end Helper

/-! ## The registry -/

/-- The definitions of a pass, the names that it hands out, and the helpers that it provides. -/
structure Registry where
  names : NameTable
  definitions : Definitions
  /-- The emitted names of helpers by their names. -/
  helpers : List (String × String)

/-- What a request to the registry comes to. -/
structure Provision where
  /-- The emitted name of the helper. -/
  answer : Except Fault String
  /-- The records of the request. -/
  records : List Record
  /-- The registry after the request. -/
  registry : Registry

namespace Registry

/-- Whether a helper is provided. -/
def provides (r : Registry) (name : String) : Bool :=
  r.helpers.any (·.1 = name)

/-- Provides a helper: the first request for a name defines it, the others find it. An indent that
    is no text leaves the helper named and not defined. -/
def provide (r : Registry) (indent : Except Fault String) (name : String)
    (template : List String) : Provision :=
  match r.helpers.lookup name with
  | some emitted => { answer := pure emitted, records := [], registry := r }
  | none =>
    let naming := r.names.distinct name .procedure
    let r := { r with names := naming.table }
    match naming.answer with
    | .error fault => { answer := throw fault, records := naming.records, registry := r }
    | .ok emitted =>
      let r := { r with helpers := r.helpers ++ [(name, emitted)] }
      match indent with
      | .error fault => { answer := throw fault, records := naming.records, registry := r }
      | .ok indent =>
        let text := Helper.reindent indent (Helper.instantiate template emitted)
        { answer := pure emitted
          records := naming.records ++ [⟨.helper, none, name, emitted⟩]
          registry :=
            { r with definitions := r.definitions.set (Definitions.helperKey name) text } }

/-- Forgets the helpers and their definitions. Their names stay taken. -/
def clearHelpers (r : Registry) : Registry :=
  { r with
    definitions := r.helpers.foldl (fun d h => d.erase (Definitions.helperKey h.1)) r.definitions
    helpers := [] }

end Registry

end BlockScript
