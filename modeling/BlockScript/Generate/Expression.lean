/-
  BlockScript.Generate.Expression

  The rules for blocks that yield a value. Each gives an expression and its precedence.
-/
import BlockScript.Generate.Index

namespace BlockScript

/-- An expression and its precedence. -/
abbrev Expression : Type := String × Order

namespace Site

/-- The fault of a field that holds none of its options. -/
def unhandled (site : Site) (field : String) : Fault :=
  .unhandledOption site.kind field (site.head.field field)

/-- The option of a field, looked up by its name in a table. A list or an object is no name. -/
def optionIn {α : Type} (site : Site) (field : String) (table : List (String × α)) :
    Except Fault α :=
  match site.head.field field with
  | .str name => match table.lookup name with
    | some choice => pure choice
    | none => throw (site.unhandled field)
  | value => if value.isCompound then throw .compoundOption else throw (site.unhandled field)

/-- The option of a field, compared with the options of a table one by one. -/
def optionAmong {α : Type} (site : Site) (field : String) (table : List (String × α)) :
    Except Fault α :=
  match table.find? fun entry => (site.head.field field).isText entry.1 with
  | some entry => pure entry.2
  | none => throw (site.unhandled field)

/-- A field as the text that it shows, or a default if it is absent. -/
def fieldText (site : Site) (field : String) (default : String) : String :=
  ((site.head.fields.get? field).map (·.shown)).getD default

/-! ## Logic -/

/-- The comparison operators. -/
def comparisons : List (String × String) := [
  ("EQ", "=="), ("NEQ", "!="), ("LT", "<"), ("LTE", "<="), ("GT", ">"), ("GTE", ">=")]

/-- The precedence of a comparison operator. -/
def comparisonOrder (operator : String) : Order :=
  if operator = "==" || operator = "!=" then .equality else .relational

/-- A comparison of two values; a missing one is zero. -/
def compare (site : Site) : Gen Expression := do
  let operator ← Gen.lift (site.optionIn "OP" comparisons)
  let order := comparisonOrder operator
  let left ← site.valueOr "A" order "0"
  let right ← site.valueOr "B" order "0"
  return (left ++ " " ++ operator ++ " " ++ right, order)

/-- The junctions: operator, precedence and the operand that changes nothing. -/
def junctions : List (String × String × Order × String) := [
  ("AND", "&&", .logicalAnd, "true"), ("OR", "||", .logicalOr, "false")]

/-- A conjunction or disjunction. One missing operand changes nothing; two give false. -/
def junction (site : Site) : Gen Expression := do
  let (operator, order, identity) ← Gen.lift (site.optionAmong "OP" junctions)
  let left ← site.value "A" order
  let right ← site.value "B" order
  let missing := if left = "" && right = "" then "false" else identity
  let left := if left = "" then missing else left
  let right := if right = "" then missing else right
  return (left ++ " " ++ operator ++ " " ++ right, order)

/-- A negation; a missing operand is true. -/
def negate (site : Site) : Gen Expression := do
  let operand ← site.valueOr "BOOL" .logicalNot "true"
  return ("!" ++ operand, .logicalNot)

/-- A truth value. -/
def boolean (site : Site) : Gen Expression := do
  let name ← Gen.lift (site.optionAmong "BOOL" [("TRUE", "true"), ("FALSE", "false")])
  return (name, .atomic)

/-- A choice between two values; a missing condition is false, a missing value null. -/
def ternary (site : Site) : Gen Expression := do
  let condition ← site.valueOr "IF" .conditional "false"
  let yes ← site.valueOr "THEN" .conditional "null"
  let no ← site.valueOr "ELSE" .conditional "null"
  return (condition ++ " ? " ++ yes ++ " : " ++ no, .conditional)

/-! ## Numbers -/

/-- The number of a value: a number itself, or the text of one. A truth value is no number. -/
def numberOf (value : Json) : Except Fault Number :=
  match value with
  | .num n => pure n
  | .bool b => throw (.truthValueAsNumber b)
  | value => match Numeral.read? value.shown with
    | some n => pure n
    | none => throw .notANumeral

/-- A number. -/
def number (site : Site) : Gen Expression := do
  let value := (site.head.fields.get? "NUM").getD (.num (.int 0))
  match numberOf value with
  | .ok n => return (n.numeral, if n.isNonneg then .atomic else .unaryNegation)
  | .error _ => throw (.notANumberField value)

/-! ## Texts -/

/-- A text. -/
def text (site : Site) : Gen Expression :=
  pure (Literal.quote (site.fieldText "TEXT" ""), .atomic)

/-- A text of several lines: the sum of its lines. -/
def multiline (site : Site) : Gen Expression :=
  let code := Literal.quoteLines (site.fieldText "TEXT" "")
  pure (code, if code.toList.contains '+' then .addition else .atomic)

/-- The number of items of a joined text: an integer, or the integer part of a number. -/
def itemCount (value : Json) : Except Fault Nat := do
  let count ← match value with
    | .str s => match Numeral.readInteger? s with
      | some n => pure n
      | none => throw (.notAnItemCount value)
    | value => match value.number? with
      | some (.int n) => pure n
      | some (.float x) =>
        if x.isNaN then throw (.notAnItemCount value)
        else if x.isInfinite then throw .infiniteItemCount
        else pure x.truncate
      | none => throw (.notAnItemCount value)
  if count < 0 then throw (.negativeItemCount value) else return count.toNat

/-- A text joined from any number of values. -/
def joined (site : Site) : Gen Expression := do
  let count ← Gen.lift (itemCount ((site.head.mutation.get? "items").getD (.num (.int 2))))
  let items ← (List.range count).mapM fun i => site.textValue ("ADD" ++ toString i)
  match items with
  | [] => return ("''", .atomic)
  | [item] => return Literal.forceString item
  | [first, second] =>
    return ((Literal.forceString first).1 ++ " + " ++ (Literal.forceString second).1, .addition)
  | items => return ("[" ++ Text.join "," items ++ "].join('')", .functionCall)

/-- The length of a text. -/
def length (site : Site) : Gen Expression := do
  let text ← site.subject "VALUE"
  return (text ++ ".length", .member)

/-- Whether a text is empty. -/
def isEmpty (site : Site) : Gen Expression := do
  let text ← site.subject "VALUE"
  return ("!" ++ text ++ ".length", .logicalNot)

/-- Where a text is found in another one. -/
def indexOf (site : Site) : Gen Expression := do
  let operator ← Gen.lift (site.optionAmong "END" [("FIRST", "indexOf"), ("LAST", "lastIndexOf")])
  let part ← site.textValue "FIND"
  let text ← site.subject "VALUE"
  let code := text ++ "." ++ operator ++ "(" ++ part ++ ")"
  if (← Gen.options).isOneBased then return (code ++ " + 1", .addition)
  else return (code, .functionCall)

/-- A character of a text: the first, the last, one counted from either end, or any. -/
def charAt (site : Site) : Gen Expression := do
  let place := site.head.field "WHERE"
  let place := if place.isTruthy then place else .str "FROM_START"
  let text ← site.valueOr "VALUE" (if place.isText "RANDOM" then .none else .member) "''"
  match place with
  | .str "FIRST" => return (text ++ ".charAt(0)", .functionCall)
  | .str "LAST" => return (text ++ ".slice(-1)", .functionCall)
  | .str "FROM_START" =>
    let index ← site.index "AT"
    return (text ++ ".charAt(" ++ index ++ ")", .functionCall)
  | .str "FROM_END" =>
    let index ← site.adjustedIndex "AT" 1 true .none
    return (text ++ ".slice(" ++ index ++ ").charAt(0)", .functionCall)
  | .str "RANDOM" =>
    let name ← Gen.helper "textRandomLetter" [
      "function " ++ Helper.nameMark ++ "(text) \x7b",
      "  var x = Math.floor(Math.random() * text.length);",
      "  return text[x];",
      "\x7d"]
    return (name ++ "(" ++ text ++ ")", .functionCall)
  | _ => throw (site.unhandled "WHERE")

/-! ## Parts of a text -/

/-- An end of a part of a text. -/
inductive Edge where
  /-- The end of the text on that side. -/
  | outermost
  | fromStart
  | fromEnd
  deriving DecidableEq, Repr

/-- The options for the beginning of a part. -/
def startEdges : List (String × Edge) := [
  ("FIRST", .outermost), ("FROM_START", .fromStart), ("FROM_END", .fromEnd)]

/-- The options for the end of a part. -/
def stopEdges : List (String × Edge) := [
  ("LAST", .outermost), ("FROM_START", .fromStart), ("FROM_END", .fromEnd)]

/-- The name of an edge in the name of a helper. -/
def edgeName (outermost : String) : Edge → String
  | .outermost => outermost
  | .fromStart => "FromStart"
  | .fromEnd => "FromEnd"

/-- The index of an edge in a helper, from the parameter that gives it. -/
def edgeIndex (outermost parameter : String) : Edge → String
  | .outermost => outermost
  | .fromStart => parameter
  | .fromEnd => "sequence.length - 1 - " ++ parameter

/-- A part of a text that is written once more for every edge that counts from its end. -/
def inlineSubstring (site : Site) (text : String) (start stop : Edge) : Gen Expression := do
  let first ← match start with
    | .fromStart => site.index "AT1"
    | .fromEnd => do
      let index ← site.adjustedIndex "AT1" 1 false .subtraction
      pure (text ++ ".length - " ++ index)
    | .outermost => pure "0"
  let last ← match stop with
    | .fromStart => site.adjustedIndex "AT2" 1 false .none
    | .fromEnd => do
      let index ← site.adjustedIndex "AT2" 0 false .subtraction
      pure (text ++ ".length - " ++ index)
    | .outermost => pure (text ++ ".length")
  return (text ++ ".slice(" ++ first ++ ", " ++ last ++ ")", .functionCall)

/-- A part of a text by a helper, to which the text is written once. -/
def helperSubstring (site : Site) (text : String) (start stop : Edge) : Gen Expression := do
  let first ← if start = .outermost then pure [] else do pure [← site.index "AT1"]
  let last ← if stop = .outermost then pure [] else do pure [← site.index "AT2"]
  let parameters := ["sequence"] ++ (if start = .outermost then [] else ["at1"])
    ++ (if stop = .outermost then [] else ["at2"])
  let name ← Gen.helper ("subsequence" ++ edgeName "First" start ++ edgeName "Last" stop) [
    "function " ++ Helper.nameMark ++ "(" ++ Text.join ", " parameters ++ ") \x7b",
    "  var start = " ++ edgeIndex "0" "at1" start ++ ";",
    "  var end = " ++ edgeIndex "sequence.length - 1" "at2" stop ++ " + 1;",
    "  return sequence.slice(start, end);",
    "\x7d"]
  return (name ++ "(" ++ Text.join ", " ([text] ++ first ++ last) ++ ")", .functionCall)

/-- A part of a text. -/
def substring (site : Site) : Gen Expression := do
  let start ← Gen.lift (site.optionAmong "WHERE1" startEdges)
  let stop ← Gen.lift (site.optionAmong "WHERE2" stopEdges)
  let needsLength := start = .fromEnd || stop = .fromEnd || stop = .outermost
  let text ← site.valueOr "STRING" (if needsLength then .none else .member) "''"
  if start = .outermost && stop = .outermost then return (text, .none)
  else if Literal.isSimple text || !needsLength then site.inlineSubstring text start stop
  else site.helperSubstring text start stop

/-! ## Changed texts -/

/-- The changes of case: a call on the text, or none for title case. -/
def caseChanges : List (String × Option String) := [
  ("UPPERCASE", some ".toUpperCase()"), ("LOWERCASE", some ".toLowerCase()"), ("TITLECASE", none)]

/-- A text in another case. -/
def changeCase (site : Site) : Gen Expression := do
  match ← Gen.lift (site.optionIn "CASE" caseChanges) with
  | some call =>
    let text ← site.subject "TEXT"
    return (text ++ call, .functionCall)
  | none =>
    let text ← site.textValue "TEXT"
    let name ← Gen.helper "textToTitleCase" [
      "function " ++ Helper.nameMark ++ "(str) \x7b",
      "  return str.replace(/\\S+/g,",
      "      function(txt) \x7breturn txt[0].toUpperCase() + txt.substring(1).toLowerCase();\x7d);",
      "\x7d"]
    return (name ++ "(" ++ text ++ ")", .functionCall)

/-- The calls that trim a text. -/
def trims : List (String × String) := [
  ("LEFT", ".replace(/^[\\s\\xa0]+/, '')"), ("RIGHT", ".replace(/[\\s\\xa0]+$/, '')"),
  ("BOTH", ".trim()")]

/-- A text without the white space at one end or both. -/
def trim (site : Site) : Gen Expression := do
  let call ← Gen.lift (site.optionIn "MODE" trims)
  let text ← site.subject "TEXT"
  return (text ++ call, .functionCall)

/-- A question to the user. The question is a field of the block or a value in a slot. -/
def prompt (site : Site) : Gen Expression := do
  let question ← match site.head.fields.get? "TEXT" with
    | some question => pure (Literal.quote question.shown)
    | none => site.textValue "TEXT"
  let code := "window.prompt(" ++ question ++ ")"
  let type := site.head.field "TYPE"
  if !type.isTruthy || type.isText "TEXT" then return (code, .functionCall)
  else if type.isText "NUMBER" then return ("Number(" ++ code ++ ")", .functionCall)
  else throw (site.unhandled "TYPE")

/-- How often a text occurs in another one. -/
def count (site : Site) : Gen Expression := do
  let text ← site.textValue "TEXT"
  let part ← site.textValue "SUB"
  let name ← Gen.helper "textCount" [
    "function " ++ Helper.nameMark ++ "(haystack, needle) \x7b",
    "  if (needle.length === 0) \x7b",
    "    return haystack.length + 1;",
    "  \x7d else \x7b",
    "    return haystack.split(needle).length - 1;",
    "  \x7d",
    "\x7d"]
  return (name ++ "(" ++ text ++ ", " ++ part ++ ")", .functionCall)

/-- A text with all occurrences of another one exchanged for a third. -/
def replace (site : Site) : Gen Expression := do
  let text ← site.textValue "TEXT"
  let old ← site.textValue "FROM"
  let new ← site.textValue "TO"
  let name ← Gen.helper "textReplace" [
    "function " ++ Helper.nameMark ++ "(haystack, needle, replacement) \x7b",
    "  needle = needle.replace(/([-()\\[\\]\x7b\x7d+?*.$\\^|,:#<!\\\\])/g,\"\\\\$1\")",
    "                 .replace(/\\x08/g,\"\\\\x08\");",
    "  return haystack.replace(new RegExp(needle, 'g'), replacement);",
    "\x7d"]
  return (name ++ "(" ++ text ++ ", " ++ old ++ ", " ++ new ++ ")", .functionCall)

/-- A text backward. -/
def reverse (site : Site) : Gen Expression := do
  let text ← site.subject "TEXT"
  return (text ++ ".split('').reverse().join('')", .functionCall)

/-! ## Variables and calls -/

/-- The emitted name of the variable of the block. -/
def variableName (site : Site) : Gen String :=
  Gen.variableName (site.head.field "VAR").shown

/-- The emitted name of the procedure of the block. -/
def procedureName (site : Site) : Gen String :=
  Gen.procedureName (site.head.field "NAME").shown

/-- The value of a variable. -/
def getVariable (site : Site) : Gen Expression := do
  return (← site.variableName, .atomic)

/-- A call of a procedure; a missing argument is null. -/
def call (site : Site) : Gen Expression := do
  let name ← site.procedureName
  let parameters ← Gen.lift site.head.parameters
  let arguments ← (List.range parameters.length).mapM fun i =>
    site.valueOr ("ARG" ++ toString i) .none "null"
  return (name ++ "(" ++ Text.join ", " arguments ++ ")", .functionCall)

/-! ## All kinds -/

/-- The expression of a block, by its kind. -/
def expression (site : Site) : ValueKind → Gen Expression
  | .compare => site.compare
  | .junction => site.junction
  | .negate => site.negate
  | .boolean => site.boolean
  | .null => pure ("null", .atomic)
  | .ternary => site.ternary
  | .number => site.number
  | .call => site.call
  | .text => site.text
  | .multiline => site.multiline
  | .joined => site.joined
  | .length => site.length
  | .isEmpty => site.isEmpty
  | .indexOf => site.indexOf
  | .charAt => site.charAt
  | .substring => site.substring
  | .changeCase => site.changeCase
  | .trim => site.trim
  | .promptExtended | .prompt => site.prompt
  | .count => site.count
  | .replace => site.replace
  | .reverse => site.reverse
  | .getVariable | .getDynamic => site.getVariable

end Site

end BlockScript
