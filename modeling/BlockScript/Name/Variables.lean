/-
  BlockScript.Name.Variables

  The names of the user's variables. Blocks refer to a variable by its id.
-/
import BlockScript.Fault

namespace BlockScript

/-- The names of variables by their ids. -/
abbrev VariableNames : Type := List (String × String)

namespace VariableNames

/-- Sets the name of an id: a new id goes to the end, a present one keeps its place. -/
def set (id name : String) : VariableNames → VariableNames
  | [] => [(id, name)]
  | (i, n) :: rest => if i = id then (i, name) :: rest else (i, n) :: set id name rest

/-- The names that a list of variables gives, each an object with a name and perhaps an id. -/
def ofItems (items : List Json) : Except Fault VariableNames :=
  items.foldlM (fun names item =>
    match item with
    | .obj members =>
      match Json.member? members "name" with
      | some name =>
        pure (names.set ((Json.member? members "id").getD name).shown name.shown)
      | none => throw (.notAVariable item)
    | _ => throw (.notAVariable item)) []

/-- The names that a value gives: an object from ids to names, or a list of variables. -/
def ofJson (data : Json) : Except Fault VariableNames :=
  if !data.isTruthy then pure []
  else match data with
    | .obj members => pure (members.map fun entry => (entry.1, entry.2.shown))
    | .arr items => ofItems items
    | .str s => ofItems (s.toList.map fun c => .str c.toString)
    | _ => throw .variablesNotAList

end VariableNames

end BlockScript
