import BlockScript.Typing.Failure

/-!
# Types of literals and operators

Source programs have integers of 32 bits and decimals within the range of doubles, so a
literal beyond that has no type.  Operators have types for some pairs of operand types;
a message about any other pair names both.
-/

namespace BlockScript
namespace Typing

/-- Rejects a program. -/
def reject {α : Type} (error : CheckError) : Except CheckFailure α := .error (.rejected error)

/-- The type of an operand, for a message. -/
def named : Option StaticType → Except CheckFailure StaticType
  | some type => .ok type
  | none => .error .untyped

/-- Rejects a program with a message that names a type. -/
def rejectNaming {α : Type} (type : Option StaticType) (error : StaticType → CheckError) :
    Except CheckFailure α := do
  let t ← named type
  reject (error t)

/-- Rejects a program with a message that names two types. -/
def rejectNamingBoth {α : Type} (left right : Option StaticType)
    (error : StaticType → StaticType → CheckError) : Except CheckFailure α := do
  let l ← named left
  let r ← named right
  reject (error l r)

/-- The least integer of a program. -/
def leastInteger : Int := -2 ^ (31 : Nat)

/-- The greatest integer of a program. -/
def greatestInteger : Int := 2 ^ (31 : Nat) - 1

/-- The type of a literal. -/
def literalType (value : Scalar) : Except CheckFailure StaticType :=
  match value with
  | .integer n =>
      if leastInteger ≤ n ∧ n ≤ greatestInteger then .ok .integer
      else match Text.intText? n with
        | some numeral => reject (.integerRange numeral)
        | none => .error .numeral
  | .decimal d =>
      if d.signals then .error .numeral
      else if d.exceedsDouble then reject (.decimalRange d.toText)
      else .ok .decimal
  | .foreign value _ => reject (.unknownLiteral value.describeInside)
  | other => .ok other.type

/-- Whether two operands have one type, which is a type of numbers. -/
def sameNumbers (left right : Option StaticType) : Bool :=
  left == right && (left == some .integer || left == some .decimal)

/-- The operators that need operands of one type of numbers. -/
def arithmeticOperators : List String := ["-", "*", "/"]

/-- The operators that compare operands of one type. -/
def comparisonOperators : List String := ["<", ">", "==", "!="]

/-- The type of an operator between operands of given types. -/
def binaryType (operator : String) (left right : Option StaticType) :
    Except CheckFailure (Option StaticType) :=
  if operator = "&&" ∨ operator = "||" then
    if left = some .boolean ∧ right = some .boolean then .ok (some .boolean)
    else rejectNamingBoth left right (.logicalOperands operator)
  else if operator = "+" then
    if left = some .string ∨ right = some .string then .ok (some .string)
    else if sameNumbers left right then .ok left
    else rejectNamingBoth left right .sumOperands
  else if operator ∈ arithmeticOperators then
    if sameNumbers left right then .ok left
    else rejectNamingBoth left right (.arithmeticOperands operator)
  else if operator = "^" then
    if left = some .integer ∧ right = some .integer then .ok (some .integer)
    else rejectNamingBoth left right .powerOperands
  else if operator ∈ comparisonOperators then
    if left = right then .ok (some .boolean)
    else rejectNamingBoth left right (.comparedOperands operator)
  else reject (.unsupportedOperator operator)

/-- Demands that a value of one type may be stored as another. -/
def requireAssignable (target source : Option StaticType) : Except CheckFailure Unit :=
  if StaticType.accepts target source then .ok ()
  else rejectNamingBoth source target .notAssignable

/-- Demands that an argument fits its parameter. -/
def requireArgument (function : String) (target source : Option StaticType) :
    Except CheckFailure Unit :=
  if StaticType.accepts target source then .ok ()
  else rejectNamingBoth source target (.argument function)

/-- The type of a list with one more element, which is the type of its first element
where none is given. -/
def withElement (listType type : Option StaticType) :
    Except CheckFailure (Option StaticType) :=
  if listType = none then .ok type
  else if listType = some .any ∨ type = listType then .ok listType
  else rejectNamingBoth type listType .elementType

end Typing
end BlockScript
