/-
  BlockScript.Generate.Index

  Index inputs. What users write counts from the index base of the settings; the script counts from
  zero. A literal index is adjusted at once, any other one by code.
-/
import BlockScript.Generate.Site

namespace BlockScript

namespace Site

/-- The slot in which an index is read, so that the adjustment can be written around it. -/
def indexSlot (delta : Int) (negated : Bool) (order : Order) : Order :=
  if 0 < delta then .addition
  else if delta < 0 then .subtraction
  else if negated then .unaryNegation
  else order

/-- A plain numeral plus an integer, or the negated sum. -/
def foldedIndex (numeral : String) (delta : Int) (negated : Bool) : Except Fault String :=
  match Numeral.read? numeral with
  | none => throw .notANumeral
  | some n => match n.addInt? delta with
    | none => throw .indexOutOfRange
    | some sum => pure (if negated then sum.neg.numeral else sum.numeral)

/-- The code that adds an integer to an index and perhaps negates the sum, with parentheses if the
    order of the context needs them. -/
def adjustedCode (index : String) (delta : Int) (negated : Bool) (order : Order) : String :=
  let sum :=
    if 0 < delta then index ++ " + " ++ toString delta
    else if delta < 0 then index ++ " - " ++ toString (-delta)
    else index
  let code :=
    if !negated then sum else if delta ≠ 0 then "-(" ++ sum ++ ")" else "-" ++ sum
  let inner? : Option Order :=
    if negated then some .unaryNegation
    else if 0 < delta then some .addition
    else if delta < 0 then some .subtraction
    else none
  match inner? with
  | some inner => if order.needsParens inner then "(" ++ code ++ ")" else code
  | none => code

/-- The zero-based index of a slot plus an integer, or the negated sum, for a context of an order. -/
def adjustedIndex (site : Site) (slot : String) (delta : Int) (negated : Bool) (order : Order) :
    Gen String := do
  let oneBased := (← Gen.options).isOneBased
  let delta := if oneBased then delta - 1 else delta
  let code ← site.valueOr slot (indexSlot delta negated order) (if oneBased then "1" else "0")
  if Numeral.isPlain code then Gen.lift (foldedIndex code delta negated)
  else return adjustedCode code delta negated order

/-- The zero-based index of a slot. -/
def index (site : Site) (slot : String) : Gen String :=
  site.adjustedIndex slot 0 false .none

end Site

end BlockScript
