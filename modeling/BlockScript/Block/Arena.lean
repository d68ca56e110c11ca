/-
  BlockScript.Block.Arena

  Blocks as objects that refer to each other. An object knows those in its slots, the one that follows
  it, and the one that holds it, its parent. A tree is laid out in the order in which its blocks are
  numbered: what a block holds is there before the block, and has it as its parent from then on.
-/
import BlockScript.Block.Basic

namespace BlockScript

/-- A block as an object. Other objects are referred to by their places. -/
structure Node where
  head : Head
  values : List (String × Option Nat)
  statements : List (String × Option Nat)
  next : Option Nat
  parent : Option Nat
  deriving Repr

namespace Node

/-- The objects in slots. -/
def connected (slots : List (String × Option Nat)) : List Nat :=
  slots.filterMap (·.2)

/-- The objects in value slots, and then those in statement slots. -/
def inputs (node : Node) : List Nat :=
  connected node.values ++ connected node.statements

/-- The objects that the object holds: those in its slots, and then the one that follows. -/
def children (node : Node) : List Nat :=
  node.inputs ++ node.next.toList

end Node

/-- Objects by their places, in the order in which they were made. -/
abbrev Arena : Type := List Node

namespace Arena

/-- Makes an object the parent of another one. -/
def adopt (arena : Arena) (parent child : Nat) : Arena :=
  arena.modify child fun node => { node with parent := some parent }

/-- A new object, which becomes the parent of those that it holds. -/
def add (arena : Arena) (node : Node) : Arena :=
  let place := arena.length
  node.children.foldl (fun arena child => arena.adopt place child) arena ++ [node]

/-- The parent of an object, if it has one. -/
def parent? (arena : Arena) (place : Nat) : Option Nat :=
  arena[place]?.bind (·.parent)

/-- One object holds another one, in a slot or as the one that follows. -/
def Holds (arena : Arena) (holder place : Nat) : Prop :=
  ∃ node, arena[holder]? = some node ∧ place ∈ node.children

/-- One object holds another one in a slot. -/
def HoldsInput (arena : Arena) (holder place : Nat) : Prop :=
  ∃ node, arena[holder]? = some node ∧ place ∈ node.inputs

/-- Going through objects one after the other lists these places: the object, what is listed for its
    slots, and what is listed for the one that follows. -/
inductive Walks (arena : Arena) : List Nat → List Nat → Prop
  | nil : Walks arena [] []
  | cons {place : Nat} {node : Node} {others inner behind rest : List Nat}
      (hnode : arena[place]? = some node) (hinner : Walks arena node.inputs inner)
      (hbehind : Walks arena node.next.toList behind) (hrest : Walks arena others rest) :
      Walks arena (place :: others) (place :: (inner ++ behind) ++ rest)

/-- An object lists these places as its descendants: itself, and what is listed for its slots. The
    object that follows it is left out. -/
def Lists (arena : Arena) (place : Nat) (places : List Nat) : Prop :=
  ∃ node inner, arena[place]? = some node ∧ Walks arena node.inputs inner ∧ places = place :: inner

end Arena

namespace Block

mutual

/-- Lays out a block with everything that hangs on it, and gives its place. -/
def layOut : Block → StateM Arena Nat
  | mk head values statements next => do
    let values ← layOutSlots values
    let statements ← layOutSlots statements
    let next ← layOutLink next
    modifyGet fun arena => (arena.length, arena.add ⟨head, values, statements, next, none⟩)

/-- Lays out the blocks in slots. -/
def layOutSlots : Slots → StateM Arena (List (String × Option Nat))
  | [] => pure []
  | (name, link) :: rest => do
    let link ← layOutLink link
    return (name, link) :: (← layOutSlots rest)

/-- Lays out a block, if there is one. -/
def layOutLink : Option Block → StateM Arena (Option Nat)
  | none => pure none
  | some b => some <$> layOut b

end

end Block

end BlockScript
