/-
  BlockScript.Proofs.Literal.Placement

  Where texts stand in a tree of blocks. The rule of a block writes the code of some of its slots;
  a text block in one of them, or in a slot below, belongs to the code of the block, one level
  deeper for every chain on the way. A procedure has a definition of its own, so what it holds
  belongs to that and not to the code around it.
-/
import BlockScript.Proofs.Generate.Inputs
import BlockScript.Proofs.Generate.Value
import BlockScript.Proofs.Script.Indent

namespace BlockScript

/-! ## Slots -/

namespace Site

/-- The slots for the arguments of a call. -/
def argumentSlots (site : Site) : List String :=
  match site.head.parameters with
  | .ok parameters => (List.range parameters.length).map fun i => "ARG" ++ toString i
  | .error _ => []

/-- The slots for the items of a joined text. -/
def itemSlots (site : Site) : List String :=
  match itemCount ((site.head.mutation.get? "items").getD (.num (.int 2))) with
  | .ok count => (List.range count).map fun i => "ADD" ++ toString i
  | .error _ => []

/-- The slot for the index of an edge of a part of a text; the outermost edges need none. -/
def edgeSlots (site : Site) (field slot : String) (edges : List (String × Edge)) : List String :=
  match site.optionAmong field edges with
  | .ok .fromStart | .ok .fromEnd => [slot]
  | .ok .outermost | .error _ => []

/-- The value slots that the rule for a kind of value writes. -/
def expressionSlots (site : Site) : ValueKind → List String
  | .compare | .junction => ["A", "B"]
  | .negate => ["BOOL"]
  | .ternary => ["IF", "THEN", "ELSE"]
  | .call => site.argumentSlots
  | .joined => site.itemSlots
  | .length | .isEmpty => ["VALUE"]
  | .indexOf => ["FIND", "VALUE"]
  | .charAt =>
    if site.charPlace.isText "FROM_START" || site.charPlace.isText "FROM_END" then ["VALUE", "AT"]
    else ["VALUE"]
  | .substring =>
    "STRING" :: (site.edgeSlots "WHERE1" "AT1" startEdges ++ site.edgeSlots "WHERE2" "AT2" stopEdges)
  | .changeCase | .trim | .reverse => ["TEXT"]
  | .promptExtended | .prompt => if (site.head.fields.get? "TEXT").isSome then [] else ["TEXT"]
  | .count => ["TEXT", "SUB"]
  | .replace => ["TEXT", "FROM", "TO"]
  | .boolean | .null | .number | .text | .multiline | .getVariable | .getDynamic => []

/-- Whether a conditional return has a value. -/
def returnsValue (site : Site) : Bool :=
  ((site.head.mutation.get? "value").getD (.bool true)).isTruthy

/-- The value slots that the rule for a kind of statement writes. -/
def statementSlots (site : Site) : StatementKind → List String
  | .conditional | .conditionalElse =>
    (List.range site.branchCount).map fun i => "IF" ++ toString i
  | .function | .procedure => ["RETURN"]
  | .call => site.argumentSlots
  | .returnIf => if site.returnsValue then ["CONDITION", "VALUE"] else ["CONDITION"]
  | .append | .print => ["TEXT"]
  | .assign | .assignDynamic => ["VALUE"]

/-- The value slots that the rule of a block writes. -/
def valueSlots (site : Site) : List String :=
  match site.kind with
  | .value kind => site.expressionSlots kind
  | .statement kind => site.statementSlots kind

/-- The statement slots that the rule for a kind of statement writes. -/
def branchSlots (site : Site) : StatementKind → List String
  | .conditional | .conditionalElse =>
    ((List.range site.branchCount).map fun i => "DO" ++ toString i) ++
      if site.hasSlot "ELSE" then ["ELSE"] else []
  | .function | .procedure => ["STACK"]
  | .call | .returnIf | .append | .print | .assign | .assignDynamic => []

/-- The statement slots that the rule of a block writes. -/
def chainSlots (site : Site) : List String :=
  match site.kind with
  | .value _ => []
  | .statement kind => site.branchSlots kind

end Site

/-! ## Texts -/

namespace Block

/-- Whether the rule of a block registers a definition. -/
def registers (b : Block) : Bool :=
  b.head.enabled && (b.kind = .statement .function || b.kind = .statement .procedure)

/-- A text of a text block and the number of chains that are between the block and the text. What a
    procedure holds is not part of the blocks around it. -/
inductive Holds : Block → Nat → String → Prop
  | text {b : Block} (henabled : b.head.enabled = true) (hkind : b.kind = .value .text) :
      Holds b 0 ((b.site false).fieldText "TEXT" "")
  | value {b c : Block} {slot : String} {depth : Nat} {s : String}
      (henabled : b.head.enabled = true) (hslot : slot ∈ (b.site false).valueSlots)
      (hc : inSlot b.values slot = some c) (hcode : c.registers = false)
      (h : Holds c depth s) : Holds b depth s
  | chain {b c : Block} {slot : String} {depth : Nat} {s : String}
      (henabled : b.head.enabled = true) (hslot : slot ∈ (b.site false).chainSlots)
      (hc : inSlot b.statements slot = some c) (hcode : c.registers = false)
      (h : Holds c depth s) : Holds b (depth + 1) s
  | next {b c : Block} {depth : Nat} {s : String} (hc : b.next = some c)
      (hcode : c.registers = false) (h : Holds c depth s) : Holds b depth s

/-- The blocks that register a definition when a block is run: the block itself, and those in its
    chains and in the chain that it begins. -/
inductive Runs : Block → Block → Prop
  | self {q : Block} (h : q.registers = true) : Runs q q
  | chain {b c q : Block} {slot : String} (henabled : b.head.enabled = true)
      (hslot : slot ∈ (b.site false).chainSlots) (hc : inSlot b.statements slot = some c)
      (h : Runs c q) : Runs b q
  | next {b c q : Block} (hc : b.next = some c) (h : Runs c q) : Runs b q

/-- A block and a block in which it stands somewhere. -/
inductive Within (a : Block) : Block → Prop
  | self : Within a a
  | child {b c : Block} (hc : c ∈ b.children) (h : Within a c) : Within a b

/-! ## Children -/

theorem mem_children_of_inSlot_values {b c : Block} {slot : String}
    (h : inSlot b.values slot = some c) : c ∈ b.children :=
  List.mem_append_left _ (List.mem_append_left _
    (List.mem_filterMap.mpr ⟨_, mem_of_inSlot h, rfl⟩))

theorem mem_children_of_inSlot_statements {b c : Block} {slot : String}
    (h : inSlot b.statements slot = some c) : c ∈ b.children :=
  List.mem_append_left _ (List.mem_append_right _
    (List.mem_filterMap.mpr ⟨_, mem_of_inSlot h, rfl⟩))

theorem mem_children_of_next {b c : Block} (h : b.next = some c) : c ∈ b.children :=
  List.mem_append_right _ (by rw [h]; exact List.mem_cons_self)

/-- What holds of what is in the slots of a block and of what follows it holds of its children. -/
theorem forall_children_mk {P : Block → Prop} {head : Head} {values statements : Slots}
    {next : Option Block} (hvalues : ∀ c ∈ connected values, P c)
    (hstatements : ∀ c ∈ connected statements, P c) (hnext : ∀ c ∈ next, P c) :
    ∀ c ∈ (mk head values statements next).children, P c := by
  intro c hc
  rcases List.mem_append.mp hc with hslots | hlink
  · rcases List.mem_append.mp hslots with hvalue | hstatement
    · exact hvalues c hvalue
    · exact hstatements c hstatement
  · exact hnext c (Option.mem_toList.mp hlink)

/-- What holds of a block and of all that stands in its children holds of all that stands in it. -/
theorem forall_within_of_children {P : Block → Prop} {b : Block} (hself : P b)
    (hchildren : ∀ c ∈ b.children, ∀ d, Within d c → P d) : ∀ d, Within d b → P d := by
  intro d hd
  cases hd with
  | self => exact hself
  | child hc h => exact hchildren _ hc d h

mutual

/-- What holds of a block whenever it holds of its children holds of all blocks. -/
theorem forall_of_children {P : Block → Prop} (h : ∀ b : Block, (∀ c ∈ b.children, P c) → P b) :
    ∀ b, P b
  | mk head values statements next => by
    apply h
    apply forall_children_mk
    · exact forall_connected_of_children h values
    · exact forall_connected_of_children h statements
    · exact forall_link_of_children h next

theorem forall_connected_of_children {P : Block → Prop}
    (h : ∀ b : Block, (∀ c ∈ b.children, P c) → P b) :
    ∀ slots : Slots, ∀ c ∈ connected slots, P c
  | [], c, hc => absurd hc List.not_mem_nil
  | (name, link) :: rest, c, hc => by
    obtain ⟨slot, hslot, hlink⟩ := List.mem_filterMap.mp hc
    rcases List.mem_cons.mp hslot with rfl | hslot
    · exact forall_link_of_children h link c hlink
    · exact forall_connected_of_children h rest c (List.mem_filterMap.mpr ⟨slot, hslot, hlink⟩)

theorem forall_link_of_children {P : Block → Prop}
    (h : ∀ b : Block, (∀ c ∈ b.children, P c) → P b) : ∀ link : Option Block, ∀ c ∈ link, P c
  | none, c, hc => absurd hc.symm (Option.some_ne_none c)
  | some b, c, hc => by
    obtain rfl := Option.some.inj hc
    exact forall_of_children h b

end

end Block

end BlockScript
