import BlockScript.Scope.Basic

/-!
# Failures of checking

A program that breaks a rule of the language is rejected, and the error says which rule.
A tree that no source text has can also be out of shape; the check stops where it meets
such a place.
-/

namespace BlockScript

/-- A broken rule. -/
inductive CheckError
  | scope (fault : ScopeFault)
  | unknownType (name : String)
  | notAssignable (source target : StaticType)
  | argument (function : String) (source target : StaticType)
  | declarationWithoutType (name : String)
  | immutableTarget (name : String)
  | condition (statement : String) (type : StaticType)
  | emptyThenBranch
  | lastCase
  | caseNotLiteral (position : Nat)
  | caseType (position : Nat) (conditionType : StaticType)
  | returnOutsideFunction
  | returnType (function : String) (expected actual : StaticType)
  | groupedExpression
  | indexType (name : String) (type : StaticType)
  | integerRange (numeral : String)
  | decimalRange (numeral : String)
  | unknownLiteral (value : String)
  | logicalOperands (operator : String) (left right : StaticType)
  | sumOperands (left right : StaticType)
  | arithmeticOperands (operator : String) (left right : StaticType)
  | powerOperands (left right : StaticType)
  | comparedOperands (operator : String) (left right : StaticType)
  | unsupportedOperator (operator : String)
  | elementType (type listType : StaticType)
  | mainReturnType
  | missingMain
deriving DecidableEq, Inhabited

namespace CheckError

/-- Two types of operands in a message. -/
def got (left right : StaticType) : String := left.name ++ " and " ++ right.name

/-- A type that does not fit where it stands. -/
def unassignable (source target : StaticType) : String :=
  "type " ++ source.name ++ " is not assignable to " ++ target.name

/-- The message of an error. -/
def message : CheckError → String
  | scope fault => fault.message
  | unknownType name => "unknown type " ++ name
  | notAssignable source target => unassignable source target
  | argument function source target =>
      "argument to " ++ function ++ ": " ++ unassignable source target
  | declarationWithoutType name =>
      "declaration of " ++ name ++ " lacks both type and initial value"
  | immutableTarget name => "cannot assign to immutable variable " ++ name
  | condition statement type =>
      statement ++ " condition must be Boolean, got " ++ type.name
  | emptyThenBranch => "IF requires a non-empty then branch"
  | lastCase => "the last SWITCH case must be DEFAULT without a value"
  | caseNotLiteral position =>
      "CASE value at position " ++ Text.natText position ++ " must be a literal"
  | caseType position conditionType =>
      "CASE value at position " ++ Text.natText position
        ++ " does not match condition type " ++ conditionType.name
  | returnOutsideFunction => "RETURN outside of a function"
  | returnType function expected actual =>
      "function " ++ function ++ " must return " ++ expected.name ++ ", got " ++ actual.name
  | groupedExpression => "a grouped expression must contain a binary expression"
  | indexType name type => "index of " ++ name ++ " must be Integer, got " ++ type.name
  | integerRange numeral => "integer literal " ++ numeral ++ " out of range"
  | decimalRange numeral => "decimal literal " ++ numeral ++ " out of range"
  | unknownLiteral value => "unrecognized literal " ++ value
  | logicalOperands operator left right =>
      "'" ++ operator ++ "' requires Boolean operands, got " ++ got left right
  | sumOperands left right => "invalid operands for '+': " ++ got left right
  | arithmeticOperands operator left right =>
      "'" ++ operator ++ "' requires two Integer or two Decimal operands, got "
        ++ got left right
  | powerOperands left right => "'^' requires Integer operands, got " ++ got left right
  | comparedOperands operator left right =>
      "'" ++ operator ++ "' requires operands of the same type, got " ++ got left right
  | unsupportedOperator operator => "unsupported binary operator " ++ operator
  | elementType type listType =>
      "cannot add " ++ type.name ++ " to a list of " ++ listType.name
  | mainReturnType => "main/0 must declare return type Integer"
  | missingMain => "missing main/0 function"

end CheckError

/-- Why the check of a tree stops. -/
inductive CheckFailure
  /-- The program breaks a rule. -/
  | rejected (error : CheckError)
  /-- The type of an expression without a type is to be named. -/
  | untyped
  /-- A node has not the part that is asked for. -/
  | missingPart
  /-- A node stands in the place of a statement. -/
  | misplacedStatement (node : Node)
  /-- A node stands in the place of an expression. -/
  | misplacedExpression (node : Node)
  /-- The target of an assignment is no variable. -/
  | targetWithoutVariable (target : Node)
  /-- A name is nothing that can be found or bound. -/
  | wrongShape
  /-- A number is not made to be converted: it has too many digits, or it is undefined and
  says so whenever it is used. -/
  | numeral
  /-- A message for the trace has no written form. -/
  | unwritable
deriving Inhabited

end BlockScript
