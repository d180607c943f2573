import BlockScript.Grammar.Source
import BlockScript.Running.Program
import BlockScript.Text.InFiles
import BlockScript.Typing.Program

/-!
# Programs from text to result

A program is parsed, checked and run, and the first of these that fails ends it.  What
it wrote and reported up to there stays.

The check and the run share one trace.  It is open from the start where the text of a
program is given, and opens behind parsing where a program comes from a file.
-/

namespace BlockScript

/-- Why a program ends without a result. -/
inductive ProgramFailure
  | syntactic (failure : SyntaxFailure)
  | check (failure : CheckFailure)
  | run (failure : RunFailure)
deriving Inhabited

/-- How a program ended, and the state of its machine then. -/
structure ProgramEnd where
  result : Except ProgramFailure Value
  machine : Machine

namespace Program

/-- The end of a program that did not run. -/
def refused (failure : ProgramFailure) (trace : Trace) : ProgramEnd :=
  ⟨.error failure, .start [] .empty trace⟩

/-- Runs a tree. -/
def runTree (settings : Settings) (steps : Nat) (start : Machine) (tree : Node) :
    ProgramEnd :=
  match Running.runProgram settings steps tree start with
  | (.ok value, machine) => ⟨.ok value, machine⟩
  | (.error failure, machine) => ⟨.error (.run failure), machine⟩

/-- Checks a tree in the given surroundings, strictly where the settings demand it. -/
def checkTree (settings : Settings) (surroundings : List Scope) (trace : Trace)
    (tree : Node) : Except CheckFailure (List Annotation) × CheckState :=
  if settings.strict then checkProgramStrictly surroundings trace tree
  else checkProgram surroundings trace tree

/-- Checks a tree and then runs it. -/
def checkAndRun (settings : Settings) (steps : Nat) (trace : Trace) (tree : Node) :
    ProgramEnd :=
  match checkTree settings [] trace tree with
  | (.ok _, s) => runTree settings steps (.start [] .empty s.trace) tree
  | (.error failure, s) => refused (.check failure) s.trace

/-- Parses, checks and runs a text, with a trace of the given level. -/
def runText (settings : Settings) (steps level : Nat) (text : String) : ProgramEnd :=
  match Grammar.parseProgram text with
  | .ok tree => checkAndRun settings steps (.start level) tree
  | .error failure => refused (.syntactic failure) (.start level)

/-- A text whose tree passes its check runs with the trace that the check leaves. -/
theorem runText_of_isOk {settings : Settings} {level : Nat} {text : String} {tree : Node}
    (steps : Nat) (hparse : Grammar.parseProgram text = .ok tree)
    (hcheck : (checkTree settings [] (.start level) tree).1.isOk = true) :
    runText settings steps level text = runTree settings steps
      (.start [] .empty (checkTree settings [] (.start level) tree).2.trace) tree := by
  unfold runText checkAndRun
  rw [hparse]
  dsimp only
  cases hresult : checkTree settings [] (.start level) tree with
  | mk r s =>
      rw [hresult] at hcheck
      cases r with
      | ok annotations => rfl
      | error failure => cases hcheck

/-- The tree of a text that was read from a file. -/
def parseFile (contents : String) : Except SyntaxFailure Node :=
  Grammar.parseProgram (String.ofList (Text.unifyNewlines contents.toList))

/-- Parses, checks and runs the contents of a file.  There is no trace where parsing
fails. -/
def runFile (settings : Settings) (steps level : Nat) (contents : String) :
    Except SyntaxFailure ProgramEnd :=
  (parseFile contents).map (checkAndRun settings steps (.start level))

/-- More steps than any run takes that ends in a lifetime. -/
def manySteps : Nat := 10 ^ (15 : Nat)

end Program
end BlockScript
