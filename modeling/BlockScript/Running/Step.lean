import BlockScript.Running.Machine

/-!
# Steps of a run

What evaluating an expression and executing a statement come to, given how their parts
are evaluated and executed.  Expressions give values.  Statements complete or return:
what follows a statement that returns does not run, up to the end of the call.

The body of a function runs in a scope inside the one that is current where the function
is called.  Names that the body does not declare itself are therefore looked up in the
callers.
-/

namespace BlockScript

/-- How a statement ends. -/
inductive Completion
  /-- What follows runs next. -/
  | finished
  /-- The call ends with a value. -/
  | returned (value : Value)
deriving DecidableEq, Inhabited

namespace Completion

/-- The value of a call whose body ends like this. -/
def value : Completion → Value
  | finished => .nil
  | returned value => value

end Completion

namespace Running

/-- The name under which a switch keeps the value of its condition; no source text can
name it. -/
def switchName : String := "$switch"

/-- The message that says in which call a run went too deep. -/
def overflowIn (name : String) (arity : Nat) : RunFailure → RunFailure
  | .endless => .raised (.stackOverflow name arity)
  | other => other

/-- The function of a declaration while the program runs. -/
def declaredFunction (name : Name) (parameters : List Name) (body : List Node) :
    Function :=
  ⟨name, name, parameters.map fun _ => .any, .any, .declared parameters body⟩

/-- A truth value in a message. -/
def truthText (b : Bool) : String := if b then "true" else "false"

/-- Declares a variable that has a value. -/
def declare (settings : Settings) (verb : String) (name : Name) (isMutable : Bool)
    (value : Value) : Running Completion := do
  bindVariable name isMutable value
  noteValue settings 2 (verb ++ " " ++ name.text ++ " = ") value
  return .finished

section Parts

/-- The values of expressions, from the first to the last. -/
def evaluateAll (evaluate : Node → Running Value) : List Node → Running (List Value)
  | [] => return []
  | node :: nodes => do
      let value ← evaluate node
      let values ← evaluateAll evaluate nodes
      return value :: values

/-- The value of an expression that may be left out. -/
def evaluateOptional (evaluate : Node → Running Value) (node : Node) : Running Value :=
  if node.isAbsent then return .nil else evaluate node

/-- Runs statements one after the other, up to one that returns. -/
def executeAll (execute : Node → Running Completion) : List Node → Running Completion
  | [] => return .finished
  | node :: nodes => do
      match ← execute node with
      | .finished => executeAll execute nodes
      | .returned value => return .returned value

/-- The second operand of `&&` or `||`, which must be a truth value. -/
def secondTruth (evaluate : Node → Running Value) (operator : String) (right : Node) :
    Running Value := do
  let value ← evaluate right
  let truth ← requireBoolean operator value
  return .boolean truth

/-- The value of an operator; `&&` and `||` evaluate their second operand only where the
first one does not settle the answer. -/
def evaluateBinary (settings : Settings) (evaluate : Node → Running Value)
    (operator : String) (left right : Node) : Running Value := do
  let a ← evaluate left
  if operator = "&&" then
    if ← requireBoolean operator a then secondTruth evaluate operator right
    else return .boolean false
  else if operator = "||" then
    if ← requireBoolean operator a then return .boolean true
    else secondTruth evaluate operator right
  else
    let b ← evaluate right
    applyOperator settings operator a b

/-- The place in a list that a variable and an offset lead to. -/
def locate (evaluate : Node → Running Value) (name : Name) (value : Value)
    (offset : Node) : Running (Nat × Nat) := do
  let reference ← requireList name value
  let index ← evaluate offset
  let i ← requireIndex reference index
  return (reference, i)

/-- The value of a variable, or of the item of its list at an offset. -/
def evaluateAccess (evaluate : Node → Running Value) (name : Name) (offset : Node) :
    Running Value := do
  let v ← lookupVariable name
  if offset.isAbsent then return v.value
  else
    let (reference, i) ← locate evaluate name v.value offset
    itemAt reference i

/-- Assigns a value to a variable, or to an item of the list that it holds.  The items of
an immutable variable can be assigned to. -/
def assign (settings : Settings) (evaluate : Node → Running Value) (target : Node)
    (value : Value) : Running Completion :=
  match target with
  | .access name offset => do
      let v ← lookupVariable name
      if offset.isAbsent then
        if v.isMutable then
          setVariable name value
          noteValue settings 2 ("assign " ++ name.text ++ " = ") value
          return .finished
        else failWith (.immutableTarget name.text)
      else
        let (reference, i) ← locate evaluate name v.value offset
        storeItem reference i value
        noteValue settings 2 ("assign " ++ name.text ++ "[" ++ Text.natText i ++ "] = ") value
        return .finished
  | target =>
      match target.name? with
      | some name => do
          let _ ← lookupVariable name
          Computation.fail .missingPart
      | none => Computation.fail .missingPart

/-- The value of a call.  The body of a function runs with one call less left; where none
is left the call goes too deep. -/
def invoke (settings : Settings) (execute : Nat → Node → Running Completion) (calls : Nat)
    (f : Function) (values : List Value) : Running Value :=
  match f.action with
  | .printer => print settings values
  | .constant value => return value
  | .collector => makeList values
  | .declared parameters body =>
      match calls with
      | 0 => Computation.fail .endless
      | calls + 1 => inScope do
          bindParameters parameters values
          let ending ← executeAll (execute calls) body
          return ending.value

/-- Evaluates the arguments of a call and calls the function. -/
def evaluateCall (settings : Settings) (evaluate : Node → Running Value)
    (execute : Nat → Node → Running Completion) (calls : Nat) (name : Name)
    (arguments : List Node) : Running Value := do
  let values ← evaluateAll evaluate arguments
  let f ← lookupFunction name values.length
  note settings 1 ("call " ++ ScopeFault.signature name.text values.length)
  (invoke settings execute calls f values).mapFailure (overflowIn name.text values.length)

/-- Whether the value of a case is left out or equals a given one. -/
def meets (settings : Settings) (evaluate : Node → Running Value) (value : Value)
    (node : Node) : Running Bool := do
  if node.isAbsent then return true
  else
    let v ← evaluate node
    equalHere settings value v

/-- Runs the first case whose value equals that of the condition, or that has none. -/
def select (settings : Settings) (evaluate : Node → Running Value)
    (execute : Node → Running Completion) (value : Value) (position : Nat) :
    List Node → Running Completion
  | [] => return .finished
  | arm :: arms =>
      match arm.valuePart with
      | .missing => Computation.fail .missingPart
      | .scalar s => Computation.fail (.misplacedValue s)
      | .tree node => do
          if ← meets settings evaluate value node then
            note settings 3 ("switch selected case " ++ Text.natText position)
            execute arm
          else select settings evaluate execute value (position + 1) arms

end Parts

section Nodes

variable (settings : Settings) (evaluate : Nat → Node → Running Value)
  (execute : Nat → Node → Running Completion) (calls : Nat)

/-- The value of an expression. -/
def evaluateNode : Node → Running Value
  | .literal value => literalValue value
  | .group expression => evaluate calls expression
  | .binary operator left right =>
      evaluateBinary settings (evaluate calls) operator.text left right
  | .access name offset => evaluateAccess (evaluate calls) name offset
  | .call name arguments => evaluateCall settings (evaluate calls) execute calls name arguments
  | .list elements => do
      let values ← evaluateAll (evaluate calls) elements
      makeList values
  | node => Computation.fail (.misplacedExpression node)

/-- Runs a body once more if a condition holds, and then the whole loop again. -/
def executeLoop (condition : Node) (body : List Node) : Running Completion := do
  let value ← evaluate calls condition
  if ← requireBoolean "WHILE" value then
    match ← inScope (executeAll (execute calls) body) with
    | .finished => execute calls (.loop condition body)
    | .returned value => return .returned value
  else return .finished

/-- Runs the body that a condition chooses. -/
def executeConditional (condition : Node) (thenBody elseBody : List Node) :
    Running Completion := do
  let value ← evaluate calls condition
  let holds ← requireBoolean "IF" value
  note settings 3 ("if condition -> " ++ truthText holds)
  inScope (executeAll (execute calls) (if holds then thenBody else elseBody))

/-- Runs a statement or a declaration. -/
def executeNode : Node → Running Completion
  | .global name _ isMutable value => do
      let v ← evaluateOptional (evaluate calls) value
      declare settings "global" name isMutable v
  | .function name parameters _ _ body => do
      bindFunction (declaredFunction name parameters body)
      note settings 2 ("define function " ++ ScopeFault.signature name.text parameters.length)
      return .finished
  | .evaluation expression => do
      let _ ← evaluate calls expression
      return .finished
  | .declaration name _ value => do
      let v ← evaluateOptional (evaluate calls) value
      declare settings "declare" name true v
  | .assignment target value => do
      let v ← evaluate calls value
      assign settings (evaluate calls) target v
  | .conditional condition thenBody elseBody =>
      executeConditional settings evaluate execute calls condition thenBody elseBody
  | .loop condition body => executeLoop evaluate execute calls condition body
  | .switch condition arms => inScope do
      let value ← evaluate calls condition
      bindVariable switchName true value
      select settings (evaluate calls) (execute calls) value 0 arms
  | .arm _ body => inScope (executeAll (execute calls) body)
  | .returning value => do
      let v ← evaluateOptional (evaluate calls) value
      return .returned v
  | node => Computation.fail (.misplacedStatement node)

end Nodes

end Running
end BlockScript
