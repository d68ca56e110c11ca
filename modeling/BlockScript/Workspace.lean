/-
  BlockScript.Workspace

  A workspace: blocks that nothing holds, the names of the user's variables, and the settings.
-/
import BlockScript.Block.Load
import BlockScript.Name.Variables
import BlockScript.Options

namespace BlockScript

/-- A workspace. -/
structure Workspace where
  variableNames : VariableNames
  blocks : List Block
  options : Options

namespace Workspace

/-- The blocks that a value lists: the items of a list, the keys of an object or the characters of a
    text. -/
def blockItems (data : Json) : Except Fault (List Json) :=
  if !data.isTruthy then pure []
  else match data with
    | .arr items => pure items
    | .obj members => pure (members.map fun entry => .str entry.1)
    | .str s => pure (s.toList.map fun c => .str c.toString)
    | _ => throw .blocksNotAList

/-- The workspace that a value describes: its variables, its blocks and its settings, in this
    order. -/
def load (data : Json) : Numbering Workspace :=
  match data with
  | .obj members => do
    let variableNames ← Numbering.lift (VariableNames.ofJson (Json.member members "variables"))
    let items ← Numbering.lift (blockItems (Json.member members "blocks"))
    let blocks ← items.mapM Block.load
    let options ← Numbering.lift (Options.ofJson (Json.member members "options"))
    return { variableNames, blocks, options }
  | _ => throw .notAWorkspace

/-- The workspace in the text of a file. -/
def read (path : Path) (text : String) : Numbering Workspace :=
  match Json.read text with
  | .ok data => load data
  | .error fault => throw (if fault.flaw = .loneHalf then .loneHalf else .notJson path fault)

end Workspace

end BlockScript
