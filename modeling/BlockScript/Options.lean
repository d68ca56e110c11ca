/-
  BlockScript.Options

  The settings of a pass. A workspace gives them under several names; apart from the comment column
  their form is looked at only where they are used.
-/
import BlockScript.Fault
import BlockScript.Text.Lines

namespace BlockScript

/-- The settings of a pass, as a workspace gives them. -/
structure Options where
  /-- Whether the indices that users write start at one. -/
  oneBasedIndex : Json
  /-- The text ahead of every statement; `%1` stands for the id of its block. -/
  statementPrefix : Json
  /-- The text behind every statement. -/
  statementSuffix : Json
  /-- The text at the top of every procedure body. -/
  loopTrap : Json
  /-- The column at which comments are wrapped. -/
  commentWrap : Json
  /-- The text ahead of every line of a nested chain. -/
  indent : Json
  /-- The text ahead of every name of a variable. -/
  variablePrefix : Json
  deriving Repr

namespace Options

/-- The settings of a workspace that gives none. -/
def default : Options where
  oneBasedIndex := .bool true
  statementPrefix := .null
  statementSuffix := .null
  loopTrap := .null
  commentWrap := .num (.int 60)
  indent := .str "  "
  variablePrefix := .str ""

instance : Inhabited Options := ⟨default⟩

/-! ## Reading -/

/-- The settings with the one of a name replaced, or nothing if no setting has that name. -/
def set? (options : Options) (name : String) (value : Json) : Option Options :=
  match name with
  | "one_based_index" | "oneBasedIndex" | "oneBasedIndexing" =>
    some { options with oneBasedIndex := value }
  | "statement_prefix" | "statementPrefix" | "statementPrefixHook" =>
    some { options with statementPrefix := value }
  | "statement_suffix" | "statementSuffix" | "statementSuffixHook" =>
    some { options with statementSuffix := value }
  | "infinite_loop_trap" | "infiniteLoopTrap" | "infiniteLoopGuardHook" =>
    some { options with loopTrap := value }
  | "comment_wrap" | "commentWrap" | "commentWrapColumn" =>
    some { options with commentWrap := value }
  | "indent" => some { options with indent := value }
  | "variable_prefix" | "variablePrefix" => some { options with variablePrefix := value }
  | _ => none

/-- Refuses a comment column that is no number or below four. -/
def checkWrap (column : Json) : Except Fault Unit :=
  match column.number? with
  | some n => if n.ltInt 4 then throw (.wrapTooNarrow column) else pure ()
  | none => throw (.wrapNotANumber column)

/-- The settings that a value gives; a value that does not count as given gives the defaults. -/
def ofJson (data : Json) : Except Fault Options :=
  if !data.isTruthy then pure default
  else match data with
    | .obj members => do
      let options ← members.foldlM (fun options (name, value) =>
        match options.set? name value with
        | some options' => pure options'
        | none => throw (.unknownOption name)) default
      checkWrap options.commentWrap
      return options
    | _ => throw (.notOptions data)

/-! ## Use -/

/-- Whether the indices that users write start at one. -/
def isOneBased (options : Options) : Bool :=
  options.oneBasedIndex.isTruthy

/-- The text ahead of every line of a nested chain. -/
def indentText (options : Options) : Except Fault String :=
  match options.indent with
  | .str s => pure s
  | _ => throw .indentNotText

/-- The text ahead of a line that a rule writes whole. -/
def indentShown (options : Options) : String :=
  options.indent.shown

/-- The text ahead of every name of a variable, if it is one. -/
def variablePrefix? (options : Options) : Option String :=
  match options.variablePrefix with
  | .str s => some s
  | _ => none

end Options

end BlockScript
