import BlockScript.Computation
import BlockScript.Trace
import BlockScript.Typing.Expression

/-!
# Checking statements and declarations

A check works on the scopes that are open and on the function whose body is checked.  It
gives the annotations of the tree, or stops at the first broken rule; names declared up
to there stay declared.

Bodies and functions have scopes of their own, which are left again however the check of
them ends.  Behind a function no function encloses what follows, not even a function in
whose body the first one stands.
-/

namespace BlockScript

/-- What a check works on. -/
structure CheckState where
  scopes : Chain
  enclosing : Option Function
  trace : Trace
deriving Inhabited

/-- A step of a check. -/
abbrev Checking := Computation CheckState CheckFailure

namespace CheckState

/-- The state that a check starts from, in the given surroundings. -/
def start (surroundings : List Scope) (trace : Trace) : CheckState :=
  ⟨.root surroundings, none, trace⟩

/-- Opens a scope. -/
def enter (s : CheckState) : CheckState := { s with scopes := s.scopes.push }

/-- Leaves the current scope. -/
def leave (s : CheckState) : CheckState := { s with scopes := s.scopes.pop }

/-- Opens the scope of a function. -/
def enterFunction (f : Function) (s : CheckState) : CheckState :=
  { s with scopes := s.scopes.push, enclosing := some f }

/-- Leaves the scope of a function. -/
def leaveFunction (s : CheckState) : CheckState :=
  { s with scopes := s.scopes.pop, enclosing := none }

end CheckState

namespace Typing

/-- Adds a message to the trace. -/
def note (level : Nat) (message : String) : Checking Unit :=
  Computation.change fun s => { s with trace := s.trace.note level message }

/-- Types an expression in the current scopes. -/
def typeHere (expected : Option StaticType) (node : Node) : Checking Typed := do
  let s ← Computation.state
  Computation.lift (typeOf s.scopes expected node)

/-- Binds a variable in the current scope. -/
def bindVariable (v : Variable) : Checking Unit := do
  let s ← Computation.state
  let scopes ← Computation.lift (boundUnder v.name (s.scopes.defineVariable v))
  Computation.change fun s => { s with scopes := scopes }

/-- Binds a function in the current scope. -/
def bindFunction (f : Function) : Checking Unit := do
  let s ← Computation.state
  let scopes ← Computation.lift (boundUnder f.name (s.scopes.defineFunction f))
  Computation.change fun s => { s with scopes := scopes }

/-- Checks in a scope of its own. -/
def inScope {α : Type} (m : Checking α) : Checking α := do
  Computation.change CheckState.enter
  m.afterwards CheckState.leave

/-- Checks in the scope of a function. -/
def inFunction {α : Type} (f : Function) (m : Checking α) : Checking α := do
  Computation.change (CheckState.enterFunction f)
  m.afterwards CheckState.leaveFunction

/-- The type of a given name. -/
def typeNamed (name : Name) : Except CheckFailure StaticType :=
  if name.isBindable then
    match StaticType.ofName? name.text with
    | some type => .ok type
    | none => reject (.unknownType name.text)
  else .error .wrongShape

/-- The type that a name gives, or another one where the name is left out. -/
def typeNamedOr (otherwise : StaticType) (name : Name) : Except CheckFailure StaticType :=
  if name.isMissing then .ok otherwise else typeNamed name

/-- The type of a declaration: the one it names, which its value must fit, or else that of
its value. -/
def declaredType (name typeName : Name) (value : Node) : Checking Typed := do
  if typeName.isMissing then
    if value.isAbsent then Computation.lift (reject (.declarationWithoutType name.text))
    else typeHere none value
  else
    let declared ← Computation.lift (typeNamed typeName)
    if value.isAbsent then return ⟨some declared, []⟩
    else
      let found ← typeHere (some declared) value
      Computation.lift (requireAssignable (some declared) found.type)
      return ⟨some declared, found.annotations⟩

/-- Checks the declaration of a variable. -/
def declare (node : Node) (verb : String) (name typeName : Name) (isMutable : Bool)
    (value : Node) : Checking (List Annotation) := do
  let found ← declaredType name typeName value
  let declared : Variable := ⟨name, name, found.type, isMutable, .nil⟩
  bindVariable declared
  let type ← Computation.lift (named found.type)
  note 2 (verb ++ " " ++ name.text ++ ": " ++ type.name)
  return ⟨node, .declaration declared⟩ :: found.annotations

/-- The function of a declaration: parameters without a type name are of any type, and a
function without a return type returns nil. -/
def signature (name : Name) (parameters parameterTypes : List Name) (returnType : Name)
    (body : List Node) : Except CheckFailure Function := do
  let types ← parameterTypes.mapM (typeNamedOr .any)
  let type ← typeNamedOr .nil returnType
  return ⟨name, name, types, type, .declared parameters body⟩

/-- Binds parameters with their types. -/
def bindParameters : List Name → List StaticType → Checking Unit
  | name :: names, type :: types => do
      bindVariable ⟨name, name, some type, true, .nil⟩
      bindParameters names types
  | _, _ => return ()

/-- Checks a condition, which must be a truth value. -/
def condition (statement : String) (node : Node) : Checking (List Annotation) := do
  let found ← typeHere none node
  if found.type = some .boolean then return found.annotations
  else Computation.lift (rejectNaming found.type (.condition statement))

/-- Checks an assignment. -/
def assignment (target value : Node) : Checking (List Annotation) := do
  let place ← typeHere none target
  match place.annotations.head?.bind fun a => a.finding.boundVariable? with
  | none => Computation.fail (.targetWithoutVariable target)
  | some v =>
      if v.isMutable then
        let found ← typeHere v.type value
        Computation.lift (requireAssignable v.type found.type)
        return place.annotations ++ found.annotations
      else Computation.lift (reject (.immutableTarget v.name.text))

/-- Demands that a function returns a type. -/
def requireReturn (f : Function) (type : Option StaticType) : Except CheckFailure Unit :=
  if type = some f.returnType then .ok ()
  else rejectNaming type (.returnType f.name.text f.returnType)

/-- Checks the end of a call. -/
def returning (value : Node) : Checking (List Annotation) := do
  let s ← Computation.state
  match s.enclosing with
  | none => Computation.lift (reject .returnOutsideFunction)
  | some f =>
      if value.isAbsent then
        Computation.lift (requireReturn f (some .nil))
        return []
      else
        let found ← typeHere none value
        Computation.lift (requireReturn f found.type)
        return found.annotations

/-- Checks the value of a case that is not the last: a literal of the type of the condition. -/
def caseValue (conditionType : Option StaticType) (position : Nat) (node : Node) :
    Checking (List Annotation) := do
  match node.valuePart with
  | .missing => Computation.fail .missingPart
  | .tree (.literal value) =>
      let found ← typeHere none (.literal value)
      if found.type = conditionType then return found.annotations
      else Computation.lift (rejectNaming conditionType (.caseType position))
  | _ => Computation.lift (reject (.caseNotLiteral position))

/-- Checks that the last case has no value. -/
def lastCaseValue (node : Node) : Checking (List Annotation) :=
  match node.valuePart with
  | .missing => Computation.fail .missingPart
  | .tree .absent => return []
  | _ => Computation.lift (reject .lastCase)

/-- Checks an expression that may be left out. -/
def optionalExpression (node : Node) : Checking (List Annotation) := do
  if node.isAbsent then return []
  else
    let found ← typeHere none node
    return found.annotations

mutual

/-- Checks a statement or a declaration. -/
def check : Node → Checking (List Annotation)
  | .global name typeName isMutable value =>
      declare (.global name typeName isMutable value) "global" name typeName isMutable value
  | .function name parameters parameterTypes returnType body => do
      let f ← Computation.lift (signature name parameters parameterTypes returnType body)
      bindFunction f
      note 1 ("function " ++ ScopeFault.signature name.text f.arity)
      let found ← inFunction f do
        bindParameters parameters f.parameterTypes
        checkAll body
      return ⟨.function name parameters parameterTypes returnType body, .function f⟩ :: found
  | .evaluation expression => do
      let found ← typeHere none expression
      return found.annotations
  | .declaration name typeName value =>
      declare (.declaration name typeName value) "declare" name typeName true value
  | .assignment target value => assignment target value
  | .conditional test thenBody elseBody => do
      let found ← condition "IF" test
      if thenBody.isEmpty then Computation.lift (reject .emptyThenBranch)
      else
        let inThen ← inScope (checkAll thenBody)
        let inElse ← inScope (checkAll elseBody)
        return found ++ inThen ++ inElse
  | .loop test body => do
      let found ← condition "WHILE" test
      let inBody ← inScope (checkAll body)
      return found ++ inBody
  | .switch test arms => do
      let found ← typeHere none test
      let inArms ← checkArms found.type 0 arms
      return found.annotations ++ inArms
  | .arm value body => do
      let found ← optionalExpression value
      let inBody ← inScope (checkAll body)
      return found ++ inBody
  | .returning value => returning value
  | node => Computation.fail (.misplacedStatement node)

/-- Checks statements one after the other. -/
def checkAll : List Node → Checking (List Annotation)
  | [] => return []
  | node :: nodes => do
      let found ← check node
      let others ← checkAll nodes
      return found ++ others

/-- Checks the cases of a switch from a position on. -/
def checkArms (conditionType : Option StaticType) (position : Nat) :
    List Node → Checking (List Annotation)
  | [] => return []
  | arm :: arms => do
      let found ← if arms.isEmpty then lastCaseValue arm
        else caseValue conditionType position arm
      let inBody ← checkArmBody arm
      let others ← checkArms conditionType (position + 1) arms
      return found ++ inBody ++ others

/-- Checks the body of a case. -/
def checkArmBody : Node → Checking (List Annotation)
  | .arm _ body => inScope (checkAll body)
  | _ => Computation.fail .missingPart

end

end Typing
end BlockScript
