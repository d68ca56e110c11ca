/-
  BlockScript.Block.Table

  The tables of a block: its fields and its mutation. A table is an object or a list of pairs; its
  entries keep the place of the first and the value of the last entry of a key.
-/
import BlockScript.Fault

namespace BlockScript

/-- The entries of a table in their order. The keys of two entries differ. -/
abbrev Table : Type := List (Json × Json)

namespace Table

/-- Sets an entry: a new key goes to the end, a present one keeps its place and its form. -/
def set (key value : Json) : Table → Table
  | [] => [(key, value)]
  | (k, v) :: rest =>
    if k.sameKey key then (k, value) :: rest else (k, v) :: set key value rest

/-- The value of the entry whose key is a text. -/
def get? (table : Table) (name : String) : Option Json :=
  (table.find? fun entry => entry.1.isText name).map (·.2)

/-- The value of the entry whose key is a text, or null. -/
def get (table : Table) (name : String) : Json :=
  (table.get? name).getD .null

/-- The two parts of an entry that is given as a pair: a list, a text or the keys of an object. -/
def pair? : Json → Except Fault (Json × Json)
  | .arr [key, value] => pure (key, value)
  | .str s =>
    match s.toList with
    | [key, value] => pure (.str key.toString, .str value.toString)
    | _ => throw .tableEntryLength
  | .obj [(key, _), (value, _)] => pure (.str key, .str value)
  | .arr _ => throw .tableEntryLength
  | .obj _ => throw .tableEntryLength
  | _ => throw .tableEntryNotAPair

/-- A table from a list of pairs. -/
def ofPairs (items : List Json) : Except Fault Table :=
  items.foldlM (fun table item => do
    let (key, value) ← pair? item
    if key.isCompound then throw .compoundKey
    return table.set key value) []

/-- The table that a value gives; a value that does not count as given is an empty table. -/
def ofJson (data : Json) : Except Fault Table :=
  if !data.isTruthy then pure []
  else match data with
    | .obj members => pure (members.map fun entry => (.str entry.1, entry.2))
    | .arr items => ofPairs items
    | .str _ => throw .tableEntryLength
    | _ => throw .tableNotAList

end Table

end BlockScript
