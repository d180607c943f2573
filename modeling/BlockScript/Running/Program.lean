import BlockScript.Running.Step

/-!
# Running programs

A run is limited in two ways.  It takes so many steps into the parts of a tree, and gives
up with `exhausted` where there are none left; with more steps every other answer stays
the same.  And calls nest only as deep as the settings allow: a call that would go
deeper, or that walks through a list without end, is a stack overflow of that call.

A run makes the globals, then the functions, and then calls `main`.  A global is
therefore made while no function of the program can be called.
-/

namespace BlockScript
namespace Running

mutual

/-- The value of an expression, found in a number of steps and with a number of calls
left. -/
def evaluate (settings : Settings) : Nat → Nat → Node → Running Value
  | 0, _, _ => Computation.fail .exhausted
  | steps + 1, calls, node =>
      evaluateNode settings (evaluate settings steps) (execute settings steps) calls node

/-- Runs a statement or a declaration in a number of steps and with a number of calls
left. -/
def execute (settings : Settings) : Nat → Nat → Node → Running Completion
  | 0, _, _ => Computation.fail .exhausted
  | steps + 1, calls, node =>
      executeNode settings (evaluate settings steps) (execute settings steps) calls node

end

/-- Runs declarations one after the other. -/
def executeEach (settings : Settings) (steps : Nat) : List Node → Running Unit
  | [] => return ()
  | node :: nodes => do
      let _ ← execute settings steps settings.calls node
      executeEach settings steps nodes

/-- The function that a run starts with. -/
def mainFunction : Running Function := do
  let m ← Computation.state
  match m.scopes.lookupFunction "main" 0 with
  | .ok f => return f
  | .error _ => failWith .missingMain

/-- Runs a program; its value is that of `main`. -/
def runProgram (settings : Settings) (steps : Nat) (program : Node) : Running Value :=
  match program with
  | .source globals functions => do
      executeEach settings steps globals
      executeEach settings steps functions
      let f ← mainFunction
      note settings 1 "run: main"
      let value ← invoke settings (execute settings steps) settings.calls f []
      noteValue settings 1 "run: main returned " value
      return value
  | _ => Computation.fail .missingPart

end Running
end BlockScript
