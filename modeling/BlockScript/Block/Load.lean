/-
  BlockScript.Block.Load

  Blocks from JSON. A block without an id is numbered; the blocks in value slots are numbered
  first, then those in statement slots, then the following block, and the block itself last.
-/
import BlockScript.Block.Basic

namespace BlockScript

/-- Steps that number blocks. The numbers that are taken before a fault stay taken. -/
abbrev Numbering : Type → Type := EStateM Fault Nat

namespace Numbering

/-- The next number. -/
def next : Numbering Nat :=
  modifyGet fun n => (n, n + 1)

/-- A step that takes no number. -/
def lift {α : Type} : Except Fault α → Numbering α
  | .ok a => pure a
  | .error fault => throw fault

end Numbering

namespace Block

/-- What a member of a block gives if it is read as a block that follows, or as slots. -/
structure Member where
  link : Numbering (Option Block)
  slots : Numbering Slots

/-- The member of a name; an absent one is read like null. -/
def Member.find (members : List (String × Member)) (name : String) : Member :=
  (members.lookup name).getD ⟨pure none, pure []⟩

/-- The kind that a value names. -/
def kindOf (data : Json) : Except Fault Kind :=
  match data with
  | .str name => match Kind.ofName? name with
    | some kind => pure kind
    | none => throw (.unknownKind name)
  | _ => throw (.unknownKind data.shown)

/-- A block from the members of an object, given how each member reads as a part of the tree. -/
def assemble (data : List (String × Json)) (members : List (String × Member)) :
    Numbering Block := do
  let some type := Json.member? data "type" | throw (.notABlock (.obj data))
  let kind ← Numbering.lift (kindOf type)
  let fields ← Numbering.lift (Table.ofJson (Json.member data "fields"))
  let values ← (Member.find members "values").slots
  let statements ← (Member.find members "statements").slots
  let next ← (Member.find members "next").link
  let mutation ← Numbering.lift (Table.ofJson (Json.member data "mutation"))
  let output := match Json.member data "output" with
    | .null => .bool kind.isValue
    | output => output
  let id ← match Json.member? data "id" with
    | some id => pure id.shown
    | none => pure ("block" ++ toString (← Numbering.next))
  return mk {
    kind, id, fields, output, mutation
    comment := Json.member data "comment"
    enabled := ((Json.member? data "enabled").getD (.bool true)).isTruthy } values statements next

mutual

/-- The block that a value describes. -/
def load : Json → Numbering Block
  | .obj members => assemble members (loadMembers members)
  | .null => throw (.notABlock .null)
  | .bool b => throw (.notABlock (.bool b))
  | .num n => throw (.notABlock (.num n))
  | .str s => throw (.notABlock (.str s))
  | .arr items => throw (.notABlock (.arr items))

/-- How each member of an object reads as a part of a block. -/
def loadMembers : List (String × Json) → List (String × Member)
  | [] => []
  | (name, value) :: rest => (name, ⟨loadLink value, loadSlots value⟩) :: loadMembers rest

/-- The block that follows: none for null. -/
def loadLink : Json → Numbering (Option Block)
  | .null => pure none
  | .obj members => some <$> assemble members (loadMembers members)
  | .bool b => throw (.notABlock (.bool b))
  | .num n => throw (.notABlock (.num n))
  | .str s => throw (.notABlock (.str s))
  | .arr items => throw (.notABlock (.arr items))

/-- The slots of a block: the members of an object, or none for a value that does not count as
    given. -/
def loadSlots : Json → Numbering Slots
  | .obj members => loadSlotList members
  | .null => pure []
  | .bool b => if b then throw .slotsNotAnObject else pure []
  | .num n => if n.isZero then pure [] else throw .slotsNotAnObject
  | .str s => if s = "" then pure [] else throw .slotsNotAnObject
  | .arr items => if items.isEmpty then pure [] else throw .slotsNotAnObject

/-- The slots of the members of an object. -/
def loadSlotList : List (String × Json) → Numbering Slots
  | [] => pure []
  | (name, value) :: rest => do
    let link ← loadLink value
    return (name, link) :: (← loadSlotList rest)

end

end Block

end BlockScript
