/-
  BlockScript.Block.Basic

  The tree of blocks. A block has a head of its own data, named slots for values, named slots for
  chains of statements, and the block that follows it. The parent of a block is the one that holds
  it, so the tree has no further link.
-/
import BlockScript.Block.Table

namespace BlockScript

/-- What a block says of itself. -/
structure Head where
  kind : Kind
  id : String
  fields : Table
  comment : Json
  output : Json
  enabled : Bool
  mutation : Table
  deriving Repr

/-- A block with everything that hangs on it. -/
inductive Block where
  | mk (head : Head) (values statements : List (String × Option Block)) (next : Option Block)
  deriving Repr

/-- The slots of a block in their order; a slot may be empty. -/
abbrev Slots : Type := List (String × Option Block)

namespace Head

/-- Whether the block yields a value. -/
def hasOutput (head : Head) : Bool :=
  head.output.isTruthy

/-- The value of a field, or null. -/
def field (head : Head) (name : String) : Json :=
  head.fields.get name

/-- The parameters of a procedure or a call: the items of a list, the characters of a text or the
    keys of an object. -/
def parameters (head : Head) : Except Fault (List Json) :=
  match head.mutation.get? "params" with
  | none => pure []
  | some (.arr items) => pure items
  | some (.str s) => pure (s.toList.map fun c => .str c.toString)
  | some (.obj members) => pure (members.map fun entry => .str entry.1)
  | some _ => throw .parametersNotAList

end Head

namespace Block

/-- The data of the block itself. -/
def head : Block → Head
  | mk head _ _ _ => head

/-- The slots for values. -/
def values : Block → Slots
  | mk _ values _ _ => values

/-- The slots for chains of statements. -/
def statements : Block → Slots
  | mk _ _ statements _ => statements

/-- The block that follows. -/
def next : Block → Option Block
  | mk _ _ _ next => next

/-- The kind of the block. -/
def kind (b : Block) : Kind :=
  b.head.kind

/-- The id of the block. -/
def id (b : Block) : String :=
  b.head.id

/-- The blocks in slots. -/
def connected (slots : Slots) : List Block :=
  slots.filterMap (·.2)

/-- The blocks that the block holds: those in its slots, and then the one that follows. -/
def children (b : Block) : List Block :=
  connected b.values ++ connected b.statements ++ b.next.toList

/-- Whether the block has a slot of a name, empty or not. -/
def hasSlot (b : Block) (name : String) : Bool :=
  b.values.any (·.1 = name) || b.statements.any (·.1 = name)

mutual

/-- The block and all blocks in its slots, each with the chain that follows it there. The chain that
    follows the block itself is left out. -/
def nested : Block → List Block
  | mk head values statements next =>
    mk head values statements next :: (nestedInSlots values ++ nestedInSlots statements)

/-- The blocks in slots with everything below them. -/
def nestedInSlots : Slots → List Block
  | [] => []
  | (_, link) :: rest => chain link ++ nestedInSlots rest

/-- The blocks of a chain with everything below them. -/
def chain : Option Block → List Block
  | none => []
  | some (mk head values statements next) =>
    (mk head values statements next :: (nestedInSlots values ++ nestedInSlots statements))
      ++ chain next

end

/-- The comments of the block and of everything nested in it that count as given. -/
def nestedComments (b : Block) : List Json :=
  (b.nested.map (·.head.comment)).filter (·.isTruthy)

end Block

end BlockScript
