/-
  BlockScript.Block.Kind

  The kinds of blocks: those that yield a value and those that stand in a chain of statements.
-/

namespace BlockScript

/-- The kinds of blocks that yield a value. -/
inductive ValueKind where
  | compare
  | junction
  | negate
  | boolean
  | null
  | ternary
  | number
  | call
  | text
  | multiline
  | joined
  | length
  | isEmpty
  | indexOf
  | charAt
  | substring
  | changeCase
  | trim
  | promptExtended
  | prompt
  | count
  | replace
  | reverse
  | getVariable
  | getDynamic
  deriving DecidableEq, Repr

/-- The kinds of blocks that are statements. -/
inductive StatementKind where
  | conditional
  | conditionalElse
  | function
  | procedure
  | call
  | returnIf
  | append
  | print
  | assign
  | assignDynamic
  deriving DecidableEq, Repr

/-- The kind of a block. -/
inductive Kind where
  | value (kind : ValueKind)
  | statement (kind : StatementKind)
  deriving DecidableEq, Repr

/-- The two sets of rules, one for each sort of kind. -/
inductive RuleSet where
  | expression
  | statement
  deriving DecidableEq, Repr

namespace ValueKind

/-- Every kind of value with its name in a workspace. -/
def named : List (String × ValueKind) := [
  ("logic_compare", compare), ("logic_operation", junction), ("logic_negate", negate),
  ("logic_boolean", boolean), ("logic_null", null), ("logic_ternary", ternary),
  ("math_number", number), ("procedures_callreturn", call), ("text", text),
  ("text_multiline", multiline), ("text_join", joined), ("text_length", length),
  ("text_isEmpty", isEmpty), ("text_indexOf", indexOf), ("text_charAt", charAt),
  ("text_getSubstring", substring), ("text_changeCase", changeCase), ("text_trim", trim),
  ("text_prompt_ext", promptExtended), ("text_prompt", prompt), ("text_count", count),
  ("text_replace", replace), ("text_reverse", reverse), ("variables_get", getVariable),
  ("variables_get_dynamic", getDynamic)]

end ValueKind

namespace StatementKind

/-- Every kind of statement with its name in a workspace. -/
def named : List (String × StatementKind) := [
  ("controls_if", conditional), ("controls_ifelse", conditionalElse),
  ("procedures_defreturn", function), ("procedures_defnoreturn", procedure),
  ("procedures_callnoreturn", call), ("procedures_ifreturn", returnIf),
  ("text_append", append), ("text_print", print), ("variables_set", assign),
  ("variables_set_dynamic", assignDynamic)]

end StatementKind

namespace Kind

/-- Every kind with its name in a workspace. -/
def named : List (String × Kind) :=
  ValueKind.named.map (fun entry => (entry.1, value entry.2))
    ++ StatementKind.named.map (fun entry => (entry.1, statement entry.2))

/-- The kind of a name. -/
def ofName? (name : String) : Option Kind :=
  named.lookup name

/-- The name of a kind. -/
def name (kind : Kind) : String :=
  ((named.find? fun entry => entry.2 = kind).map (·.1)).getD ""

/-- Whether blocks of the kind yield a value unless they say otherwise. -/
def isValue : Kind → Bool
  | value _ => true
  | statement _ => false

/-- The set of rules that the kind belongs to. -/
def ruleSet : Kind → RuleSet
  | value _ => .expression
  | statement _ => .statement

/-- Whether blocks of the kind place the statement hooks themselves. -/
def placesHooks : Kind → Bool
  | statement .conditional | statement .conditionalElse => true
  | _ => false

end Kind

end BlockScript
