import BlockScript.Computation
import BlockScript.Running.Operator
import BlockScript.Scope.Chain
import BlockScript.Trace
import BlockScript.Value.Basic

/-!
# The machine

The state of a run: the scopes that are open, the lists that were made, the text that
was written, the trace, and what literals brought along that are arrays.  This module has
the single steps on it; every step that fails leaves the state that it reached.
-/

namespace BlockScript

/-- The state of a run. -/
structure Machine where
  scopes : Chain
  heap : Heap
  output : String
  trace : Trace
  /-- The lists that arrays in literals have become, by the places of the literals. -/
  loaded : List (List Nat × Value)
deriving Inhabited

/-- A step of a run. -/
abbrev Running := Computation Machine RunFailure

namespace Machine

/-- The state that a run starts from, in the given surroundings. -/
def start (surroundings : List Scope) (heap : Heap) (trace : Trace) : Machine :=
  ⟨.root surroundings, heap, "", trace, []⟩

/-- Opens a scope. -/
def enter (m : Machine) : Machine := { m with scopes := m.scopes.push }

/-- Leaves the current scope. -/
def leave (m : Machine) : Machine := { m with scopes := m.scopes.pop }

end Machine

namespace Running

/-- Raises an error. -/
def failWith {α : Type} (error : RunError) : Running α := Computation.fail (.raised error)

/-- A binding that must be there. -/
def bound {α : Type} : Except ScopeFault α → Except RunFailure α
  | .ok a => .ok a
  | .error fault => raise (.scope fault)

/-- Something that is found or bound under a name. -/
def boundUnder {α : Type} (name : Name) (binding : Except ScopeFault α) :
    Except RunFailure α :=
  if name.isBindable then bound binding else .error .wrongShape

/-- Whether a message is refused that a trace would keep. -/
def refuses (settings : Settings) (trace : Trace) (level : Nat) (message : String) : Bool :=
  settings.strict && decide (level ≤ trace.level) && !Text.isWritable message

/-- Adds a message to the trace. -/
def note (settings : Settings) (level : Nat) (message : String) : Running Unit :=
  if settings.reports then fun m =>
    if refuses settings m.trace level message then (.error .unwritable, m)
    else (.ok (), { m with trace := m.trace.note level message })
  else return ()

/-- Adds a message that ends with the text of a value.  The text is made even where the
trace does not keep the message. -/
def noteValue (settings : Settings) (level : Nat) (message : String) (value : Value) :
    Running Unit := do
  if settings.reports then
    let m ← Computation.state
    let text ← Computation.lift (textOf settings m.heap value)
    note settings level (message ++ text)
  else return ()

/-- Runs in a scope of its own, which is left however the run ends. -/
def inScope {α : Type} (m : Running α) : Running α := do
  Computation.change Machine.enter
  m.afterwards Machine.leave

/-- The variable of a name. -/
def lookupVariable (name : Name) : Running Variable := do
  let m ← Computation.state
  Computation.lift (boundUnder name (m.scopes.lookupVariable name))

/-- The function of a name and a number of parameters. -/
def lookupFunction (name : Name) (arity : Nat) : Running Function := do
  let m ← Computation.state
  Computation.lift (boundUnder name (m.scopes.lookupFunction name arity))

/-- Binds a variable in the current scope.  While a program runs all variables are of any
type. -/
def bindVariable (name : Name) (isMutable : Bool) (value : Value) : Running Unit := do
  let m ← Computation.state
  let scopes ← Computation.lift
    (boundUnder name (m.scopes.defineVariable ⟨name, name, some .any, isMutable, value⟩))
  Computation.change fun m => { m with scopes := scopes }

/-- Binds a function in the current scope. -/
def bindFunction (f : Function) : Running Unit := do
  let m ← Computation.state
  let scopes ← Computation.lift (boundUnder f.name (m.scopes.defineFunction f))
  Computation.change fun m => { m with scopes := scopes }

/-- Binds parameters to arguments. -/
def bindParameters : List Name → List Value → Running Unit
  | name :: names, value :: values => do
      bindVariable name true value
      bindParameters names values
  | _, _ => return ()

/-- Stores a value into the nearest variable of a name. -/
def setVariable (name : Name) (value : Value) : Running Unit :=
  Computation.change fun m => { m with scopes := m.scopes.setVariable name value }

/-- Makes a list. -/
def makeList (items : List Value) : Running Value := fun m =>
  let (value, heap) := m.heap.allocate items
  (.ok value, { m with heap := heap })

/-- The value of a literal.  An array becomes a list when the literal is evaluated first,
and stays that list. -/
def literalValue : Scalar → Running Value
  | .foreign (.array items) place => fun m =>
      match m.loaded.lookup place with
      | some value => (.ok value, m)
      | none =>
          let (value, heap) := m.heap.load (.array items)
          (.ok value, { m with heap := heap, loaded := (place, value) :: m.loaded })
  | value => return .scalar value

/-- The item of a list at an index that it has. -/
def itemAt (reference index : Nat) : Running Value := fun m =>
  (.ok ((m.heap.items reference).getD index .nil), m)

/-- Stores a value as an item of a list. -/
def storeItem (reference index : Nat) (value : Value) : Running Unit :=
  Computation.change fun m => { m with heap := m.heap.store reference index value }

/-- A truth value, as some operators and statements need it. -/
def requireBoolean (what : String) : Value → Running Bool
  | .scalar (.boolean b) => return b
  | value => failWith (.notBoolean what value.type)

/-- The list that a variable holds. -/
def requireList (name : Name) : Value → Running Nat
  | .list reference => return reference
  | value => failWith (.notIndexable name.text value.type)

/-- An index that a list has. -/
def requireIndex (reference : Nat) : Value → Running Nat
  | .scalar (.integer n) => do
      let m ← Computation.state
      if 0 ≤ n ∧ n < (m.heap.items reference).length then return n.toNat
      else match Text.intText? n with
        | some numeral => failWith (.indexOutOfRange numeral)
        | none => Computation.fail .numeral
  | _ => failWith .indexNotInteger

/-- The value of an operator on two values. -/
def applyOperator (settings : Settings) (operator : String) (a b : Value) :
    Running Value := do
  let m ← Computation.state
  Computation.lift (operate settings m.heap operator a b)

/-- Whether two values are equal. -/
def equalHere (settings : Settings) (a b : Value) : Running Bool := do
  let m ← Computation.state
  Computation.lift (valuesEqual settings m.heap a b)

/-- Writes a line.  A strict run breaks off at a text that has no written form. -/
def writeLine (settings : Settings) (text : String) : Running Unit :=
  if settings.strict && !Text.isWritable text then Computation.fail .unwritable
  else Computation.change fun m => { m with output := m.output ++ text ++ "\n" }

/-- Writes the first of some values on a line of its own. -/
def print (settings : Settings) : List Value → Running Value
  | [] => Computation.fail .missingArgument
  | value :: _ => do
      let m ← Computation.state
      let text ← Computation.lift (textOf settings m.heap value)
      writeLine settings text
      return .nil

end Running
end BlockScript
