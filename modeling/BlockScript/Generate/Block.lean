/-
  BlockScript.Generate.Block

  The code of a block: that of its rule, with hooks, comments and the block that follows. The inputs
  of a block are steps that its rule runs when it needs them.
-/
import BlockScript.Generate.Statement

namespace BlockScript

namespace Site

/-- The code of a block as its rule gives it: none if it registered a definition. -/
def rule (site : Site) : Gen (Option Code) :=
  match site.kind with
  | .value kind => do
    let (text, order) ← site.expression kind
    return some (.expression text order)
  | .statement kind => do
    return (← site.statement kind).map .statement

/-- The code of a block. A disabled block is passed over; `alone` leaves out the block that
    follows. -/
def code (site : Site) (alone : Bool) : Gen Code := do
  Gen.requirePass
  if !site.head.enabled then
    Gen.record ⟨.skippedBlock, some site.id, site.kind.name, "disabled"⟩
    if alone then return .statement "" else site.nextCode
  else
    match ← site.rule with
    | some (.expression text order) =>
      if !site.head.hasOutput then throw (.valueWithoutOutput site.kind)
      return .expression (← site.complete text alone) order
    | some (.statement text) =>
      let text ← site.withHooks text
      return .statement (← site.complete text alone)
    | none => return .statement ""

end Site

namespace Block

mutual

/-- The code of a block that is attached to another one, or that nothing holds. -/
def code (attached alone : Bool) : Block → Gen Code
  | mk head values statements next =>
    Site.code ⟨head, attached, inputs values, inputs statements, input next⟩ alone

/-- The blocks in slots with the steps that yield their code. -/
def inputs : Slots → List (String × Option Input)
  | [] => []
  | (name, link) :: rest => (name, input link) :: inputs rest

/-- A connected block with the step that yields its code. -/
def input : Option Block → Option Input
  | none => none
  | some b => some ⟨b, code true false b⟩

end

/-- A block as its rule sees it. -/
def site (attached : Bool) (b : Block) : Site :=
  ⟨b.head, attached, inputs b.values, inputs b.statements, input b.next⟩

theorem code_eq_site_code (attached alone : Bool) (b : Block) :
    b.code attached alone = (b.site attached).code alone := by
  cases b
  rfl

/-- The code of a block by the rules of one set. -/
def ruleOf (rules : RuleSet) (b : Block) : Gen (Option Code) :=
  if b.kind.ruleSet = rules then (b.site false).rule else throw (.foreignKind b.kind rules)

/-- A value as a statement of its own. -/
def statementOfValue (text : String) : String :=
  text ++ ";\n"

/-- The code of a block that nothing holds, as a line of the main text. A value is a statement of
    its own, with hooks; a block without code has no line. -/
def topLevelLine (b : Block) : Gen (Option String) := do
  let text ← match ← b.code false false with
    | .statement text => pure text
    | .expression text _ => pure text
  if text = "" then return none
  else if b.head.hasOutput then return some (← (b.site false).withHooks (statementOfValue text))
  else return some text

end Block

end BlockScript
