import BlockScript.Scope.Basic

/-!
# Failures of running

A program that does something its values do not allow raises an error, and the error
says what.  Beyond these a run can end where a value has no text, where a list that
contains itself is walked, where a decimal leaves the range of results, or at a place
where a tree is out of shape.
-/

namespace BlockScript

/-- What a program did wrong. -/
inductive RunError
  | scope (fault : ScopeFault)
  | missingMain
  | notBoolean (what : String) (type : StaticType)
  | notIndexable (name : String) (type : StaticType)
  | indexNotInteger
  | indexOutOfRange (numeral : String)
  | immutableTarget (name : String)
  | divisionByZero
  | negativeExponent
  | powerOperands (left right : StaticType)
  | notComparable (operator : String) (left right : StaticType)
  | invalidOperands (operator : String) (left right : StaticType)
  | unsupportedOperator (operator : String)
  | stackOverflow (function : String) (arity : Nat)
deriving DecidableEq, Inhabited

namespace RunError

/-- Two types of operands in a message. -/
def got (left right : StaticType) : String := left.name ++ " and " ++ right.name

/-- The message of an error. -/
def message : RunError → String
  | scope fault => fault.message
  | missingMain => "missing main/0 function"
  | notBoolean what type => what ++ " expects Boolean, got " ++ type.name
  | notIndexable name type => "cannot index " ++ name ++ " of type " ++ type.name
  | indexNotInteger => "list index must be Integer"
  | indexOutOfRange numeral => "list index " ++ numeral ++ " out of range"
  | immutableTarget name => "cannot assign to immutable variable " ++ name
  | divisionByZero => "division by zero"
  | negativeExponent => "negative exponent"
  | powerOperands left right => "'^' requires Integer operands, got " ++ got left right
  | notComparable operator left right =>
      "'" ++ operator ++ "' requires comparable operands of the same type, got "
        ++ got left right
  | invalidOperands operator left right =>
      "invalid operands for '" ++ operator ++ "': " ++ got left right
  | unsupportedOperator operator => "unsupported operator " ++ operator
  | stackOverflow function arity =>
      "stack overflow in call to " ++ ScopeFault.signature function arity

end RunError

/-- Why a run stops. -/
inductive RunFailure
  /-- The program did something wrong. -/
  | raised (error : RunError)
  /-- Calls or lists nest deeper than is allowed. -/
  | endless
  /-- A number has more digits than are converted or computed with. -/
  | numeral
  /-- An operation on special decimals has no result. -/
  | undefinedResult
  /-- A decimal is above the range of results. -/
  | overflow
  /-- A decimal has more digits than can be written out. -/
  | outOfReach
  /-- An operation is not made for special decimals. -/
  | specialOperand
  /-- A name is nothing that can be found or bound, or a character is no text. -/
  | wrongShape
  /-- A text to be written or a message for the trace has no written form. -/
  | unwritable
  /-- A node has not the part that is asked for. -/
  | missingPart
  /-- A function is called without the argument that it needs. -/
  | missingArgument
  /-- A node stands in the place of a statement. -/
  | misplacedStatement (node : Node)
  /-- A node stands in the place of an expression. -/
  | misplacedExpression (node : Node)
  /-- A bare value stands in the place of an expression. -/
  | misplacedValue (value : Scalar)
  /-- The run took more steps than it was given. -/
  | exhausted
deriving Inhabited

end BlockScript
