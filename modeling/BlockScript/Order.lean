/-
  BlockScript.Order

  The precedence of every kind of expression, and the rule that decides whether an expression needs
  parentheses in a slot.
-/

namespace BlockScript

/-- The precedence classes of expressions, the tightest first. -/
inductive Order where
  | atomic
  | new
  | member
  | functionCall
  | increment
  | bitwiseNot
  | unaryPlus
  | unaryNegation
  | logicalNot
  | typeOf
  | void
  | delete
  | await
  | exponentiation
  | multiplication
  | division
  | modulus
  | subtraction
  | addition
  | bitwiseShift
  | relational
  | equality
  | bitwiseAnd
  | bitwiseXor
  | bitwiseOr
  | logicalAnd
  | logicalOr
  | conditional
  | assignment
  | yield
  | comma
  | none
  deriving DecidableEq, Repr

namespace Order

/-- Every class, the tightest first. -/
def all : List Order := [
  atomic, new, member, functionCall, increment, bitwiseNot, unaryPlus, unaryNegation, logicalNot,
  typeOf, void, delete, await, exponentiation, multiplication, division, modulus, subtraction,
  addition, bitwiseShift, relational, equality, bitwiseAnd, bitwiseXor, bitwiseOr, logicalAnd,
  logicalOr, conditional, assignment, yield, comma, none]

/-- How loosely a class binds; classes of one rank are not ordered among themselves. -/
def rank : Order → Nat
  | atomic => 0
  | new | member => 1
  | functionCall => 2
  | increment => 3
  | bitwiseNot | unaryPlus | unaryNegation | logicalNot | typeOf | void | delete | await => 4
  | exponentiation | multiplication | division | modulus => 5
  | subtraction | addition => 6
  | bitwiseShift => 7
  | relational => 8
  | equality => 9
  | bitwiseAnd => 10
  | bitwiseXor => 11
  | bitwiseOr => 12
  | logicalAnd => 13
  | logicalOr => 14
  | conditional => 15
  | assignment => 16
  | yield => 17
  | comma => 18
  | none => 99

/-- The pairs of a slot and an expression in it that read the same with and without parentheses:
    chains of members and calls, repeated negation, and the associative operators. -/
def bareNestings : List (Order × Order) := [
  (functionCall, member), (functionCall, functionCall), (member, member), (member, functionCall),
  (logicalNot, logicalNot), (multiplication, multiplication), (addition, addition),
  (logicalAnd, logicalAnd), (logicalOr, logicalOr)]

/-- Whether an expression needs parentheses in a slot. It does not if it binds tighter, if both are
    atoms or both are unconstrained, or if the pair is a bare nesting. -/
def needsParens (outer inner : Order) : Bool :=
  if inner.rank < outer.rank then false
  else if inner.rank = outer.rank && (outer.rank = atomic.rank || outer.rank = none.rank) then false
  else !bareNestings.contains (outer, inner)

/-- The text of an expression for a slot, in parentheses if it needs them. -/
def wrap (code : String) (outer inner : Order) : String :=
  if code ≠ "" && needsParens outer inner then "(" ++ code ++ ")" else code

end Order

end BlockScript
