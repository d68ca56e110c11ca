/-
  BlockScript.Fault

  Everything that can go wrong between a workspace and its program text, and the wording of what is
  reported to the user.
-/
import BlockScript.Block.Kind
import BlockScript.File.Basic
import BlockScript.Json.Reader
import BlockScript.Json.Shown

namespace BlockScript

/-- Why a step failed. -/
inductive Fault where
  -- A workspace that is not well formed.
  | notABlock (data : Json)
  | unknownKind (name : String)
  | notAWorkspace
  | notAVariable (data : Json)
  | notOptions (data : Json)
  | unknownOption (name : String)
  | wrapTooNarrow (column : Json)
  | wrapNotANumber (column : Json)
  | notJson (path : Path) (fault : Json.SyntaxFault)
  | notANumberField (value : Json)
  | notAnItemCount (value : Json)
  | negativeItemCount (value : Json)
  | unhandledOption (kind : Kind) (field : String) (value : Json)
  -- Blocks in slots where they do not belong.
  | valueWithoutOutput (kind : Kind)
  | statementInValueSlot (kind : Kind)
  | valueInStatementSlot (kind : Kind)
  | valueInChain
  -- Steps that a session does not allow.
  | noPass
  | passFinished
  | foreignKind (kind : Kind) (rules : RuleSet)
  | noBlock
  -- Files.
  | noFile (path : Path)
  | unreadable (fault : FileFault)
  -- Values that a text or a number cannot be made of.
  | truthValueAsNumber (b : Bool)
  | notANumeral
  | infiniteItemCount
  | indexOutOfRange
  | widthNotPositive
  | badTemplate
  | unknownTemplateGroup
  -- Data of the wrong form.
  | slotsNotAnObject
  | tableNotAList
  | tableEntryNotAPair
  | tableEntryLength
  | compoundKey
  | blocksNotAList
  | variablesNotAList
  | parametersNotAList
  | compoundParameter
  | parameterNotText
  | compoundOption
  | hookNotText
  | indentNotText
  | prefixNotText
  | commentNotText
  | nestedCommentNotText
  -- What no text holds and what comes to no end.
  | loneHalf
  | endlessWrap
  deriving Repr

namespace Fault

/-- The name of the sort of a value in number position that is no number. -/
def sortName : Json → String
  | .null => "NoneType"
  | .str _ => "str"
  | .arr _ => "list"
  | .obj _ => "dict"
  | .bool _ => "bool"
  | .num (.int _) => "int"
  | .num (.float _) => "float"

/-- The name of a set of rules in messages. -/
def ruleSetName : RuleSet → String
  | .expression => "ExprGenerator"
  | .statement => "StmtGenerator"

/-- The wording of a fault that has one. -/
def message? : Fault → Option String
  | notABlock data => some ("Block must be an object with a 'type': " ++ data.quoted)
  | unknownKind name =>
    some ("Language \"Rego\" does not know how to generate code for block type \"" ++ name ++ "\"")
  | notAWorkspace => some "Workspace must be a JSON object"
  | notAVariable data => some ("Variable must be an object with a 'name': " ++ data.quoted)
  | notOptions data => some ("Options must be a JSON object: " ++ data.quoted)
  | unknownOption name => some ("Unknown generator option: " ++ name)
  | wrapTooNarrow column =>
    some ("Invalid generator options: comment_wrap must be at least 4, got " ++ column.shown)
  | wrapNotANumber column =>
    some ("Invalid generator options: '<' not supported between instances of '"
      ++ sortName column ++ "' and 'int'")
  | notJson path fault => some ("Invalid JSON in " ++ path.shown ++ ": " ++ fault.message)
  | notANumberField value => some ("math_number.NUM is not a number: " ++ value.quoted)
  | notAnItemCount value => some ("text_join.items is not a count: " ++ value.quoted)
  | negativeItemCount value => some ("text_join.items is negative: " ++ value.quoted)
  | unhandledOption kind field value =>
    some ("Unhandled option (" ++ kind.name ++ "." ++ field ++ "=" ++ value.quoted ++ ")")
  | valueWithoutOutput kind => some ("Expecting string from statement block: " ++ kind.name)
  | statementInValueSlot kind => some ("Expecting tuple from value block: " ++ kind.name)
  | valueInStatementSlot kind => some ("Expecting code from statement block: " ++ kind.name)
  | noPass => some "No generation pass in progress. Call init() first."
  | passFinished => some "Generation pass already finished"
  | foreignKind kind rules =>
    some ("Block type " ++ kind.name ++ " not handled by " ++ ruleSetName rules)
  | noFile path => some ("Input file not found: " ++ path.shown)
  | truthValueAsNumber b => some ("Not a number: " ++ (Json.bool b).quoted)
  | _ => none

/-- Whether a fault is none of the steps themselves: a text that no text here holds was read, or a
    step would not have come to an end. -/
def isBeyond : Fault → Bool
  | loneHalf | endlessWrap => true
  | _ => false

/-- Whether the workspace is to blame, so that its author is told what is wrong with it. -/
def isMalformed : Fault → Bool
  | notABlock _ | unknownKind _ | notAWorkspace | notAVariable _ | notOptions _ | unknownOption _
  | wrapTooNarrow _ | wrapNotANumber _ | notJson _ _ | notANumberField _ | notAnItemCount _
  | negativeItemCount _ | unhandledOption _ _ _ => true
  | _ => false

end Fault

end BlockScript
