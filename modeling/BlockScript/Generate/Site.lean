/-
  BlockScript.Generate.Site

  A block as its rule sees it: its own data, and its inputs as steps that yield their code. This
  file reads inputs: values with the parentheses of their slot, chains with an indent.
-/
import BlockScript.Generate.Monad
import BlockScript.Literal
import BlockScript.Text.Template
import BlockScript.Text.Wrap

namespace BlockScript

/-- The code of a block: text of statements, or an expression with its precedence. -/
inductive Code where
  | statement (text : String)
  | expression (text : String) (order : Order)
  deriving DecidableEq, Repr

/-- A connected block: the block itself and the step that yields its code. -/
structure Input where
  block : Block
  code : Gen Code

/-- A block as its rule sees it. -/
structure Site where
  head : Head
  /-- Whether another block holds this one. -/
  attached : Bool
  values : List (String × Option Input)
  statements : List (String × Option Input)
  next : Option Input

namespace Site

/-- The kind of the block. -/
def kind (site : Site) : Kind :=
  site.head.kind

/-- The id of the block. -/
def id (site : Site) : String :=
  site.head.id

/-- Whether the block is plugged into another block as a value. -/
def isInline (site : Site) : Bool :=
  site.head.hasOutput && site.attached

/-- Whether the block has a slot of a name, empty or not. -/
def hasSlot (site : Site) (name : String) : Bool :=
  site.values.any (·.1 = name) || site.statements.any (·.1 = name)

/-- The block in a slot, if the slot exists and holds one. -/
def inSlot (slots : List (String × Option Input)) (name : String) : Option Input :=
  (slots.lookup name).join

/-- The code of the block that follows; no block has no code. -/
def nextCode (site : Site) : Gen Code :=
  match site.next with
  | some input => input.code
  | none => pure (.statement "")

/-! ## Values -/

/-- The code of the block in a value slot, with parentheses if the slot needs them. An empty slot
    has no code. -/
def value (site : Site) (name : String) (outer : Order) : Gen String :=
  match inSlot site.values name with
  | none => pure ""
  | some input => do
    match ← input.code with
    | .expression text order => return Order.wrap text outer order
    | .statement text =>
      if text = "" then return "" else throw (.statementInValueSlot input.block.kind)

/-- The code of the block in a value slot, or a default that the log tells of. -/
def valueOr (site : Site) (name : String) (outer : Order) (default : String) : Gen String := do
  let code ← site.value name outer
  if code = "" then
    Gen.record ⟨.defaultValue, some site.id, site.kind.name ++ "." ++ name, default⟩
    return default
  else return code

/-- The code of the block in a value slot that may be anything, or the empty text literal. -/
def textValue (site : Site) (name : String) : Gen String :=
  site.valueOr name .none "''"

/-- The code of the block in a value slot whose members are used, or the empty text literal. -/
def subject (site : Site) (name : String) : Gen String :=
  site.valueOr name .member "''"

/-! ## Chains -/

/-- The text behind the indent of the settings, line by line. -/
def indented (text : String) : Gen String := do
  Gen.lift (Text.prefixLines text (← Gen.lift (← Gen.options).indentText))

/-- The code of the chain in a statement slot, behind an indent. An empty slot has no code. -/
def chain (site : Site) (name : String) : Gen String :=
  match inSlot site.statements name with
  | none => pure ""
  | some input => do
    match ← input.code with
    | .statement text => if text = "" then return "" else indented text
    | .expression _ _ => throw (.valueInStatementSlot input.block.kind)

/-! ## Hooks -/

/-- The text of a hook for a block: `%1` stands for the id of the block as a literal in which
    nothing is escaped. -/
def instantiate (hook id : String) : String :=
  Text.replace hook "%1" ("'" ++ id ++ "'")

/-- The text of a hook that a setting gives, or no text. -/
def hookText (site : Site) (setting : Json) : Except Fault String :=
  if !setting.isTruthy then pure ""
  else match setting with
    | .str hook => pure (instantiate hook site.id)
    | _ => throw .hookNotText

/-- Statement code between the hooks, unless the rule of the block places them. -/
def withHooks (site : Site) (code : String) : Gen String := do
  if site.kind.placesHooks then return code
  let options ← Gen.options
  let lead ← Gen.lift (site.hookText options.statementPrefix)
  let tail ← Gen.lift (site.hookText options.statementSuffix)
  return lead ++ code ++ tail

/-- The hook behind statements, as an indented line at the top of a branch. -/
def branchHook (site : Site) : Gen String := do
  let hook ← Gen.lift (site.hookText (← Gen.options).statementSuffix)
  if hook = "" then return "" else indented hook

/-! ## Comments -/

/-- The comment lines of a text. -/
def commentLines (text : String) : String :=
  Text.prefixed "// " text

/-- A text wrapped at a width, which has to be above zero. No piece of a text is within NaN, so that
    the lines of a text are never filled at this width. -/
def wrapped (text : String) (width : Number) : Except Fault String :=
  match Text.Limit.ofWidth? width with
  | some limit => pure (Text.wrap limit text)
  | none => throw (if width.isNaN then .endlessWrap else .widthNotPositive)

/-- How long a line of a comment may be behind the mark of comment lines, for a column. -/
def commentWidth (column : Json) : Except Fault Number :=
  match column.number?.bind (·.addInt? (-3)) with
  | some width => pure width
  | none => throw (.wrapNotANumber column)

/-- The comment of the block itself, wrapped. -/
def ownComment (site : Site) : Gen String :=
  if !site.head.comment.isTruthy then pure ""
  else match site.head.comment with
    | .str text => do
      let width ← Gen.lift (commentWidth (← Gen.options).commentWrap)
      return commentLines ((← Gen.lift (wrapped text width)) ++ "\n")
    | _ => throw .commentNotText

/-- The text of a value, if it is one. -/
def commentText : Json → Except Fault String
  | .str text => pure text
  | _ => throw .nestedCommentNotText

/-- The comments of a block and of everything nested in it, each behind a line feed of its own. -/
def nestedComments (b : Block) : Except Fault String := do
  let texts ← b.nestedComments.mapM commentText
  return if texts.isEmpty then "" else Text.join "\n" (texts ++ [""])

/-- The comment lines of the inputs of a block. -/
def inputComments (slots : List (String × Option Input)) : Except Fault String := do
  let texts ← (slots.filterMap (·.2)).mapM fun input => nestedComments input.block
  return String.join (texts.map commentLines')
where
  /-- The comment lines of a text; no text has none. -/
  commentLines' (text : String) : String :=
    if text = "" then "" else commentLines text

/-- The comment lines ahead of the code of a block that is not plugged into another. -/
def comments (site : Site) : Gen String := do
  if site.isInline then return ""
  let own ← site.ownComment
  return own ++ (← Gen.lift (inputComments site.values))

/-- The code of a block with its comments ahead and, unless it stands alone, the code of the block
    that follows behind it. -/
def complete (site : Site) (code : String) (alone : Bool) : Gen String := do
  let comments ← site.comments
  if alone then return comments ++ code
  match ← site.nextCode with
  | .statement text => return comments ++ code ++ text
  | .expression _ _ => throw .valueInChain

end Site

end BlockScript
