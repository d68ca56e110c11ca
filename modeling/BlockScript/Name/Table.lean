/-
  BlockScript.Name.Table

  Allocation of names. A table hands out identifiers that are neither reserved nor handed out
  before, and gives the same identifier whenever the same name of the same category is asked for.
-/
import BlockScript.Log
import BlockScript.Name.Safe
import BlockScript.Name.Variables
import BlockScript.Text.Lower

namespace BlockScript

/-- The categories of names. -/
inductive Category where
  | userVariable
  | procedure
  | developerVariable
  deriving DecidableEq, Repr

/-- The words that no name may be: keywords and built-ins of the script, and global names of the
    environment that runs it. -/
def reservedWords : List String := [
  "default", "input", "not", "count", "with", "as", "sum", "product", "max", "min", "sort", "all",
  "any", "array", "object", "json", "indexOf", "lower", "glob",
  "Array", "ArrayBuffer", "Boolean", "DataView", "Date", "Error", "EvalError", "Function",
  "Infinity", "Intl", "JSON", "Map", "Math", "NaN", "Number", "Object", "Promise", "Proxy",
  "RangeError", "ReferenceError", "Reflect", "RegExp", "Set", "String", "Symbol", "SyntaxError",
  "TypeError", "URIError", "WeakMap", "WeakSet", "alert", "arguments", "console", "decodeURI",
  "decodeURIComponent", "document", "encodeURI", "encodeURIComponent", "escape", "eval",
  "globalThis", "isFinite", "isNaN", "location", "navigator", "parseFloat", "parseInt", "prompt",
  "self", "setInterval", "setTimeout", "clearInterval", "clearTimeout", "undefined", "unescape",
  "window"]

/-- The state of the allocation of names. -/
structure NameTable where
  /-- The words that are never handed out. -/
  reserved : List String
  /-- The text ahead of names of variables, unless the setting is no text. -/
  variablePrefix? : Option String
  /-- The identifiers handed out so far, without prefixes. -/
  taken : List String
  /-- The identifiers of the names asked for so far by their keys, without prefixes. -/
  memo : List (String × String)
  /-- The names of variables by their ids. -/
  variableNames : VariableNames
  deriving Repr

/-- What a request for a name comes to. -/
structure Naming where
  /-- The emitted name. -/
  answer : Except Fault String
  /-- The record of the request, if the name was changed. -/
  records : List Record
  /-- The table after the request. -/
  table : NameTable

namespace Category

/-- The name of a category in the keys of names. -/
def name : Category → String
  | userVariable => "VARIABLE"
  | procedure => "PROCEDURE"
  | developerVariable => "DEVELOPER_VARIABLE"

end Category

namespace NameTable

/-- A table that has handed out nothing. -/
def new (reserved : List String) (variablePrefix? : Option String) : NameTable :=
  { reserved, variablePrefix?, taken := [], memo := [], variableNames := [] }

/-- Forgets everything but the reserved words and the prefix. -/
def reset (t : NameTable) : NameTable :=
  new t.reserved t.variablePrefix?

/-- Adds reserved words. -/
def reserve (t : NameTable) (words : List String) : NameTable :=
  { t with reserved := words ++ t.reserved }

/-- Whether a word is reserved. -/
def isReserved (t : NameTable) (word : String) : Bool :=
  t.reserved.contains word

/-! ## Allocation -/

/-- Whether an identifier may be handed out. -/
def isFree (t : NameTable) (candidate : String) : Bool :=
  !t.taken.contains candidate && !t.isReserved candidate

/-- The first free identifier among a base with the suffixes from one on, for as many suffixes as
    the fuel says, or the last of them. -/
def freeSuffixed (t : NameTable) (base : String) : Nat → Nat → String
  | 0, suffix => base ++ toString suffix
  | fuel + 1, suffix =>
    if t.isFree (base ++ toString suffix) then base ++ toString suffix
    else freeSuffixed t base fuel (suffix + 1)

/-- A free identifier for a base: the base itself, or else the base with the least suffix from two
    on. There are more suffixes than identifiers that are not free. -/
def freeName (t : NameTable) (base : String) : String :=
  if t.isFree base then base
  else t.freeSuffixed base (t.taken.length + t.reserved.length) 2

/-- The text ahead of the names of a category. -/
def prefixFor (t : NameTable) : Category → Except Fault String
  | .procedure => pure ""
  | _ => match t.variablePrefix? with
    | some lead => pure lead
    | none => throw .prefixNotText

/-- Hands out an identifier that no name had before. -/
def allot (t : NameTable) (name : String) : String × NameTable :=
  let candidate := t.freeName (Name.safe name)
  (candidate, { t with taken := candidate :: t.taken })

/-- The record of a name that was changed. -/
def changeRecord (name candidate : String) : List Record :=
  if candidate = name then [] else [⟨.rename, none, name, candidate⟩]

/-- A name that differs from all names before. -/
def distinct (t : NameTable) (name : String) (category : Category) : Naming :=
  let (candidate, t') := t.allot name
  { answer := (t.prefixFor category).map (· ++ candidate)
    records := changeRecord name candidate
    table := t' }

/-- The name that is meant: the name of the variable with that id, if there is one. -/
def meant (t : NameTable) (name : String) (category : Category) : String :=
  if category = .userVariable then
    match t.variableNames.lookup name with
    | some userName => if userName = "" then name else userName
    | none => name
  else name

/-- The key of a name in a category: the name in lower case, and the category behind it. -/
def memoKey (source : String) (category : Category) : String :=
  Text.lower source ++ "_" ++ category.name

/-- The emitted name of a name in a category. Names that differ in case only are one name, and get
    the same identifier at every request. -/
def name (t : NameTable) (name : String) (category : Category) : Naming :=
  let source := t.meant name category
  let key := memoKey source category
  match t.memo.lookup key with
  | some candidate =>
    { answer := (t.prefixFor category).map (· ++ candidate), records := [], table := t }
  | none =>
    let (candidate, t') := t.allot source
    let records := changeRecord source candidate
    match t.prefixFor category with
    | .ok lead =>
      { answer := pure (lead ++ candidate), records,
        table := { t' with memo := (key, candidate) :: t'.memo } }
    | .error fault => { answer := throw fault, records, table := t' }

end NameTable

end BlockScript
