/-
  BlockScript.Proofs.Expression.OperatorTree

  The tree that blocks of logic build: comparisons, conjunctions and disjunctions, negations,
  choices, truth values, integers and variables. An empty slot has the tree of its default.
-/
import BlockScript.Generate.Block
import BlockScript.Proofs.Generate.Inputs
import BlockScript.Proofs.Name.Legible

namespace BlockScript

open Script (Expr Operator)

/-! ## Nodes -/

/-- What a block of logic makes of its operands. -/
inductive LogicNode where
  | compare (op : Operator)
  | junction (op : Operator)
  | negate
  | truth (value : Bool)
  | null
  | choice
  | integer (n : Int)
  | named (name : String)
  deriving DecidableEq, Repr

namespace LogicNode

/-- The comparisons by the option of their block. -/
def comparisons : List (String × Operator) := [
  ("EQ", .equal), ("NEQ", .notEqual), ("LT", .less), ("LTE", .lessEqual), ("GT", .greater),
  ("GTE", .greaterEqual)]

/-- The junctions by the option of their block. -/
def junctions : List (String × Operator) :=
  [("AND", .and), ("OR", .or)]

/-- The truth values by the option of their block. -/
def truths : List (String × Bool) :=
  [("TRUE", true), ("FALSE", false)]

/-- The operand of a junction that changes nothing. -/
def identity (op : Operator) : Expr :=
  .truth (op = .and)

/-- The tree of an integer; a negative one has a sign. -/
def integerTree : Int → Expr
  | .ofNat n => .numeral (toString n)
  | .negSucc n => .signed .minus (.numeral (toString (n + 1)))

/-- The tree of a block with the trees of its slots. -/
def tree (node : LogicNode) (emitted : String → String) (slot : String → Option Expr) : Expr :=
  match node with
  | compare op =>
    .binary op ((slot "A").getD (.numeral "0")) ((slot "B").getD (.numeral "0"))
  | junction op =>
    let missing := if slot "A" = none ∧ slot "B" = none then .truth false else identity op
    .binary op ((slot "A").getD missing) ((slot "B").getD missing)
  | negate => .signed .not ((slot "BOOL").getD (.truth true))
  | truth value => .truth value
  | null => .null
  | choice =>
    .choice ((slot "IF").getD (.truth false)) ((slot "THEN").getD .null)
      ((slot "ELSE").getD .null)
  | integer n => integerTree n
  | named name => .name (emitted name)

end LogicNode

namespace Head

/-- The option of a field, if the field holds one of a table. -/
def option? {α : Type} (head : Head) (field : String) (table : List (String × α)) : Option α :=
  match head.field field with
  | .str name => table.lookup name
  | _ => none

/-- What a block makes of its operands, if it is one of logic and its fields are right. -/
def logicNode? (head : Head) : Option LogicNode :=
  match head.kind with
  | .value .compare => (head.option? "OP" LogicNode.comparisons).map .compare
  | .value .junction => (head.option? "OP" LogicNode.junctions).map .junction
  | .value .negate => some .negate
  | .value .boolean => (head.option? "BOOL" LogicNode.truths).map .truth
  | .value .null => some .null
  | .value .ternary => some .choice
  | .value .number =>
    match Site.numberOf ((head.fields.get? "NUM").getD (.num (.int 0))) with
    | .ok (.int n) => some (.integer n)
    | _ => none
  | .value .getVariable => some (.named (head.field "VAR").shown)
  | _ => none

end Head

/-! ## Trees -/

namespace Block

mutual

/-- The tree that a block of logic builds, with the names that variables have in the script. -/
def operatorTree (emitted : String → String) : Block → Expr
  | mk head values _ _ =>
    match head.logicNode? with
    | some node => node.tree emitted fun name => ((operands emitted values).lookup name).join
    | none => .null

/-- The trees of the blocks in slots. -/
def operands (emitted : String → String) : Slots → List (String × Option Expr)
  | [] => []
  | (name, link) :: rest => (name, operand emitted link) :: operands emitted rest

/-- The tree of a connected block. -/
def operand (emitted : String → String) : Option Block → Option Expr
  | none => none
  | some b => some (operatorTree emitted b)

end

/-- An enabled block of logic without a comment, with blocks of this sort in its slots and none that
    follows. No variable of it has the name of a value. -/
inductive LogicTree (t : NameTable) : Block → Prop
  | mk {head : Head} {values : Slots} {node : LogicNode} (henabled : head.enabled = true)
      (houtput : head.hasOutput = true) (hcomment : head.comment.isTruthy = false)
      (hnode : head.logicNode? = some node)
      (hname : ∀ name, node = .named name → t.meant name .userVariable ∉ constants)
      (hvalues : ∀ name c, (name, some c) ∈ values → LogicTree t c) :
      LogicTree t (.mk head values [] none)

theorem lookup_operands (emitted : String → String) (slots : Slots) (name : String) :
    ((operands emitted slots).lookup name).join =
      (inSlot slots name).map (operatorTree emitted) := by
  induction slots with
  | nil => rfl
  | cons slot rest ih =>
    obtain ⟨slotName, link⟩ := slot
    rw [inSlot] at ih ⊢
    rw [operands, List.lookup_cons, List.lookup_cons]
    cases name == slotName with
    | true => cases link <;> rfl
    | false => exact ih

/-- A tree of logic has no comments. -/
theorem LogicTree.nestedComments {t : NameTable} {b : Block} (h : b.LogicTree t) :
    b.nestedComments = [] := by
  rw [nestedComments_eq_nil_iff]
  induction h with
  | @mk head values node _ _ hcomment _ _ hvalues ih =>
    intro c hc
    rw [nested, nestedInSlots, List.append_nil, List.mem_cons] at hc
    rcases hc with rfl | hc
    · exact hcomment
    · obtain ⟨name, child, hchild, hmem⟩ := exists_of_mem_nestedInSlots hc
      have hlast : child.next = none := by
        cases hvalues name child hchild
        rfl
      rw [chain_eq_nested hlast] at hmem
      exact ih name child hchild c hmem

end Block

end BlockScript
