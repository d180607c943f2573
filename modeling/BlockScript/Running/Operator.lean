import BlockScript.Decimal.Arithmetic
import BlockScript.Running.Failure
import BlockScript.Value.Walk

/-!
# Operators on values

Equality is defined on all values.  `+` joins texts as soon as one operand is a string,
and adds numbers; the other arithmetic operators take two integers or two decimals.
Order is defined on two values of one kind that is neither nil nor list.

The truth operators are not among these, since they do not always evaluate both of their
operands.
-/

namespace BlockScript

/-- How a run is limited, and whether it reports what it does. -/
structure Settings where
  /-- How deep calls nest. -/
  calls : Nat
  /-- How deep lists nest in a walk. -/
  nesting : Nat
  /-- Whether messages are made for the trace. -/
  reports : Bool
  /-- Whether a run breaks off at a line or a message that has no written form in a file.  Files
  are always strict.  Without it this failure is left out, which only trees and texts that hold
  halves of surrogate pairs ever meet, and the characters that stand for halves are the private
  characters that they are elsewhere. -/
  strict : Bool
deriving Inhabited

namespace Settings

/-- The settings of a program whose text was read from a file, which holds no halves. -/
def standard : Settings := ⟨250, 500, true, false⟩

/-- The settings of a program that may hold halves: a tree that was read, or a text that was
handed over. -/
def strictly (s : Settings) : Settings := { s with strict := true }

end Settings

namespace Running

/-- Raises an error. -/
def raise {α : Type} (error : RunError) : Except RunFailure α := .error (.raised error)

/-- The text of a value. -/
def textOf (settings : Settings) (heap : Heap) (value : Value) : Except RunFailure String :=
  match heap.text settings.nesting value with
  | .ok text => .ok text
  | .error .endless => .error .endless
  | .error .numeral => .error .numeral
  | .error .noText => .error .wrongShape

/-- Equality of values. -/
def valuesEqual (settings : Settings) (heap : Heap) (a b : Value) : Except RunFailure Bool :=
  match heap.equal settings.nesting a b with
  | .ok answer => .ok answer
  | .error .endless => .error .endless
  | .error .refused => .error .undefinedResult

/-- The result of an operation on decimals. -/
def decimalResult : Except DecimalFault Decimal → Except RunFailure Value
  | .ok d => .ok (.scalar (.decimal d))
  | .error .numeral => .error .numeral
  | .error .special => .error .specialOperand
  | .error .zeroDivisor => raise .divisionByZero
  | .error .noResult => .error .undefinedResult
  | .error .overflow => .error .overflow
  | .error .precision => .error .numeral
  | .error .outOfReach => .error .outOfReach

/-- Arithmetic on integers; a quotient is rounded towards zero. -/
def integerArithmetic (operator : String) (a b : Int) : Except RunFailure Value :=
  if operator = "+" then .ok (.scalar (.integer (a + b)))
  else if operator = "-" then .ok (.scalar (.integer (a - b)))
  else if operator = "*" then .ok (.scalar (.integer (a * b)))
  else if b = 0 then raise .divisionByZero
  else .ok (.scalar (.integer (a.tdiv b)))

/-- Arithmetic on decimals.  A divisor is compared with zero first, which a signalling one
refuses. -/
def decimalArithmetic (operator : String) (a b : Decimal) : Except RunFailure Value :=
  if operator = "+" then decimalResult (a.add b)
  else if operator = "-" then decimalResult (a.sub b)
  else if operator = "*" then decimalResult (a.mul b)
  else if b.signals then .error .undefinedResult
  else if b.isZero then raise .divisionByZero
  else decimalResult (Decimal.divide a b)

/-- Arithmetic on values. -/
def arithmetic (operator : String) (a b : Value) : Except RunFailure Value :=
  match a, b with
  | .scalar (.integer m), .scalar (.integer n) => integerArithmetic operator m n
  | .scalar (.decimal c), .scalar (.decimal d) => decimalArithmetic operator c d
  | _, _ => raise (.invalidOperands operator a.type b.type)

/-- Whether a value is a string. -/
def isString : Value → Bool
  | .scalar (.string _) => true
  | _ => false

/-- Sum of numbers, or joined texts. -/
def sum (settings : Settings) (heap : Heap) (a b : Value) : Except RunFailure Value :=
  if isString a || isString b then do
    let s ← textOf settings heap a
    let t ← textOf settings heap b
    return .scalar (.string (s ++ t))
  else arithmetic "+" a b

/-- The power of two integers. -/
def power (a b : Value) : Except RunFailure Value :=
  match a, b with
  | .scalar (.integer m), .scalar (.integer n) =>
      if n < 0 then raise .negativeExponent
      else .ok (.scalar (.integer (m ^ n.toNat)))
  | _, _ => raise (.powerOperands a.type b.type)

/-- Whether two values have an order. -/
def comparable : Value → Value → Bool
  | .scalar a, .scalar b => a.comparable b
  | _, _ => false

/-- Whether two values are in the order that an operator asks for. -/
def ordered (operator : String) (wanted : Ordering) (a b : Value) : Except RunFailure Value :=
  match a, b with
  | .scalar s, .scalar t =>
      if s.comparable t then
        match s.order t with
        | .ok order => .ok (.boolean (order == wanted))
        | .error .undefined => .error .undefinedResult
        | .error .unordered => .error .wrongShape
      else raise (.notComparable operator a.type b.type)
  | _, _ => raise (.notComparable operator a.type b.type)

/-- The value of an operator on two values. -/
def operate (settings : Settings) (heap : Heap) (operator : String) (a b : Value) :
    Except RunFailure Value :=
  if operator = "==" then (valuesEqual settings heap a b).map Value.boolean
  else if operator = "!=" then
    (valuesEqual settings heap a b).map fun answer => .boolean (!answer)
  else if operator = "+" then sum settings heap a b
  else if operator = "-" ∨ operator = "*" ∨ operator = "/" then arithmetic operator a b
  else if operator = "^" then power a b
  else if operator = "<" then ordered operator .lt a b
  else if operator = ">" then ordered operator .gt a b
  else raise (.unsupportedOperator operator)

end Running
end BlockScript
