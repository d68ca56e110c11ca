/-
  BlockScript.Generate.Statement

  The rules for statements. Each gives lines of text, or none if the block registers a definition.
-/
import BlockScript.Generate.Expression

namespace BlockScript

namespace Site

/-! ## Conditionals -/

/-- How many conditions a conditional has: one more than there are slots `IF1`, `IF2`, … without a
    gap. -/
def branchCount (site : Site) : Nat :=
  let slots := List.range (site.values.length + site.statements.length)
  (slots.takeWhile fun (i : Nat) => site.hasSlot ("IF" ++ toString (i + 1))).length + 1

/-- The body of a branch: the hook behind statements, then the chain. -/
def branch (site : Site) (slot : String) : Gen String := do
  let hook ← site.branchHook
  return hook ++ (← site.chain slot)

/-- One condition with its body; a missing condition is false. -/
def conditionalBranch (site : Site) (i : Nat) : Gen String := do
  let condition ← site.valueOr ("IF" ++ toString i) .none "false"
  let body ← site.branch ("DO" ++ toString i)
  return "if (" ++ condition ++ ") \x7b\n" ++ body ++ "\x7d"

/-- A conditional. It has a last branch if it has a slot for it, or if a hook goes behind
    statements. -/
def conditional (site : Site) : Gen String := do
  let options ← Gen.options
  let hook ← Gen.lift (site.hookText options.statementPrefix)
  let branches ← (List.range site.branchCount).mapM site.conditionalBranch
  let last ←
    if site.hasSlot "ELSE" || options.statementSuffix.isTruthy then do
      let body ← site.branch "ELSE"
      pure (" else \x7b\n" ++ body ++ "\x7d")
    else pure ""
  return hook ++ Text.join " else " branches ++ last ++ "\n"

/-! ## Variables and output -/

/-- An assignment; a missing value is zero. -/
def assign (site : Site) : Gen String := do
  let value ← site.valueOr "VALUE" .assignment "0"
  let name ← site.variableName
  return name ++ " = " ++ value ++ ";\n"

/-- Appends a text to a variable. -/
def append (site : Site) : Gen String := do
  let name ← site.variableName
  let value ← site.textValue "TEXT"
  return name ++ " += " ++ (Literal.forceString value).1 ++ ";\n"

/-- Shows a text to the user. -/
def print (site : Site) : Gen String := do
  let text ← site.textValue "TEXT"
  return "window.alert(" ++ text ++ ");\n"

/-! ## Procedures -/

/-- The emitted name of a parameter. -/
def parameterName : Json → Gen String
  | .str name => Gen.variableName name
  | value => throw (if value.isCompound then .compoundParameter else .parameterNotText)

/-- Behind the indent of the settings, unless there is no text. -/
def indentedHook (text : String) : Gen String :=
  if text = "" then pure "" else indented text

/-- Registers the text of a procedure: hooks and loop guard, the body, the hooks again if a value is
    returned after a body, and the return. -/
def defineProcedure (site : Site) : Gen Unit := do
  let options ← Gen.options
  let name ← site.procedureName
  let lead ← Gen.lift (site.hookText options.statementPrefix)
  let tail ← Gen.lift (site.hookText options.statementSuffix)
  let hooks ← indentedHook (lead ++ tail)
  let trap ← indentedHook (← Gen.lift (site.hookText options.loopTrap))
  let body ← site.chain "STACK"
  let value ← site.value "RETURN" .none
  let again := if body ≠ "" && value ≠ "" then hooks else ""
  let result := if value = "" then "" else options.indentShown ++ "return " ++ value ++ ";\n"
  let parameters ← (← Gen.lift site.head.parameters).mapM parameterName
  let code := "function " ++ name ++ "(" ++ Text.join ", " parameters ++ ") \x7b\n"
    ++ hooks ++ trap ++ body ++ again ++ result ++ "\x7d"
  Gen.define name (← site.complete code false)

/-- A call of a procedure as a statement. -/
def callStatement (site : Site) : Gen String := do
  return (← site.call).1 ++ ";\n"

/-- A conditional return, with a value unless the mutation says otherwise. -/
def returnIf (site : Site) : Gen String := do
  let condition ← site.valueOr "CONDITION" .none "false"
  let hook ← site.branchHook
  let options ← Gen.options
  let hasValue := ((site.head.mutation.get? "value").getD (.bool true)).isTruthy
  let result ←
    if hasValue then do
      let value ← site.valueOr "VALUE" .none "null"
      pure ("return " ++ value ++ ";\n")
    else pure "return;\n"
  return "if (" ++ condition ++ ") \x7b\n" ++ hook ++ options.indentShown ++ result ++ "\x7d\n"

/-! ## All kinds -/

/-- The text of a statement, by its kind; none if it registered a definition. -/
def statement (site : Site) : StatementKind → Gen (Option String)
  | .conditional | .conditionalElse => some <$> site.conditional
  | .function | .procedure => do
    site.defineProcedure
    return none
  | .call => some <$> site.callStatement
  | .returnIf => some <$> site.returnIf
  | .append => some <$> site.append
  | .print => some <$> site.print
  | .assign | .assignDynamic => some <$> site.assign

end Site

end BlockScript
