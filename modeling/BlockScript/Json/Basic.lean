/-
  BlockScript.Json.Basic

  JSON values. The members of an object keep their order, and an integer is not a binary64 number.
-/
import BlockScript.Number.Basic

namespace BlockScript

/-- A JSON value. -/
inductive Json where
  | null
  | bool (b : Bool)
  | num (n : Number)
  | str (s : String)
  | arr (items : List Json)
  | obj (members : List (String × Json))
  deriving Repr

namespace Json

/-- Whether a value counts as given: not null, false, a zero, or empty. -/
def isTruthy : Json → Bool
  | null => false
  | bool b => b
  | num n => !n.isZero
  | str s => s ≠ ""
  | arr items => !items.isEmpty
  | obj members => !members.isEmpty

/-- The value of a member of an object. -/
def member? (members : List (String × Json)) (name : String) : Option Json :=
  members.lookup name

/-- The value of a member of an object, or null. -/
def member (members : List (String × Json)) (name : String) : Json :=
  (member? members name).getD null

/-- Whether the value is a list or an object. -/
def isCompound : Json → Bool
  | arr _ => true
  | obj _ => true
  | _ => false

/-- The number of a value in number position, where true is one and false is zero. -/
def number? : Json → Option Number
  | num n => some n
  | bool b => some (.int (if b then 1 else 0))
  | _ => none

/-- Whether two values that are not compound name the same entry of a table. Numbers are compared
    by value, true as one and false as zero. -/
def sameKey (a b : Json) : Bool :=
  match a.number?, b.number? with
  | some x, some y => x.sameValue y
  | none, none =>
    match a, b with
    | null, null => true
    | str s, str t => s = t
    | _, _ => false
  | _, _ => false

/-- Whether a value is a given text. -/
def isText (v : Json) (s : String) : Bool :=
  match v with
  | str t => t = s
  | _ => false

end Json

end BlockScript
