import BlockScript.Typing.Statement

/-!
# Checking programs

A program is checked from its first global to its last function.  It must declare the
function `main` without parameters, returning an integer.
-/

namespace BlockScript
namespace Typing

/-- Whether a node declares the function that a run starts with, which must return an
integer. -/
def declaresMain : Node → Except CheckFailure Bool
  | .function name parameters _ returnType _ =>
      if name = "main" ∧ parameters = [] then
        if returnType = StaticType.integer.name then .ok true
        else reject .mainReturnType
      else .ok false
  | node =>
      match node.name? with
      | some name => if name = "main" then .error .missingPart else .ok false
      | none => .error .missingPart

/-- Checks the functions of a program, and says whether one of them is `main`. -/
def checkFunctions : List Node → Checking (Bool × List Annotation)
  | [] => return (false, [])
  | node :: nodes => do
      let isMain ← Computation.lift (declaresMain node)
      let found ← check node
      let (hasMain, others) ← checkFunctions nodes
      return (isMain || hasMain, found ++ others)

/-- Checks a program. -/
def checkProgram (program : Node) : Checking (List Annotation) := do
  note 1 "analyze: start"
  match program with
  | .source globals functions =>
      let found ← checkAll globals
      let (hasMain, others) ← checkFunctions functions
      if hasMain then
        note 1 "analyze: done"
        return found ++ others
      else Computation.lift (reject .missingMain)
  | _ => Computation.fail .missingPart

end Typing

/-- Checks a program in the given surroundings: its annotations or why it is refused, and
the state that the check ends with. -/
def checkProgram (surroundings : List Scope) (trace : Trace) (program : Node) :
    Except CheckFailure (List Annotation) × CheckState :=
  Typing.checkProgram program (.start surroundings trace)

/-- Checks a program whose trace is written to a file.  The check breaks off at the first
message that cannot be written, and what comes behind that does not count. -/
def checkProgramStrictly (surroundings : List Scope) (trace : Trace) (program : Node) :
    Except CheckFailure (List Annotation) × CheckState :=
  let (result, s) := checkProgram surroundings trace program
  if s.trace.isWritable then (result, s)
  else (.error .unwritable, { s with trace := s.trace.writablePart })

end BlockScript
