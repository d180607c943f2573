import BlockScript.CommandLine.Arguments
import BlockScript.CommandLine.Files
import BlockScript.CommandLine.Report
import BlockScript.Json.Layout
import BlockScript.Json.Reader
import BlockScript.Tree.Reading
import BlockScript.Tree.Writing

/-!
# Commands

What a command does: the files that it reads and writes, in order, what it writes to the
two output streams, and how it ends.

A program that runs ends with the integer that it returns.  The trace is written to
`debug.txt` where its level is above zero.  A check empties that file before it reads its
own, and other commands touch it only behind parsing; where it cannot be written, the
command breaks off without output.
-/

namespace BlockScript

/-- Why a command breaks off without a report. -/
inductive CommandFailure
  | file (fault : FileFault)
  | notText
  | json (fault : JsonFault)
  | tree (fault : ReadFault)
  | program (failure : ProgramFailure)
deriving Inhabited

/-- How a command ends. -/
inductive Ending
  /-- Without a status of its own. -/
  | done
  /-- With a status. -/
  | status (code : Int)
  /-- Broken off. -/
  | broken (failure : CommandFailure)
deriving Inhabited

/-- How a command ends, and what it writes to the two output streams. -/
structure Effect where
  ending : Ending
  output : String
  errors : String
deriving Inhabited

namespace Effect

/-- A command that breaks off with nothing written. -/
def broken (failure : CommandFailure) : Effect := ⟨.broken failure, "", ""⟩

/-- A command whose program failed: with a report if there is one.  In the report, halves of
surrogate pairs are escaped. -/
def failed (failure : ProgramFailure) (output : String) : Effect :=
  match failure.report? with
  | some report => ⟨.status 1, output, Text.escapeHalves report.text ++ "\n"⟩
  | none => ⟨.broken (.program failure), output, ""⟩

/-- The status that the value of a program gives. -/
def statusOf : Value → Int
  | .scalar (.integer n) => n
  | _ => 0

/-- What running a program comes to. -/
def ofEnd (e : ProgramEnd) : Effect :=
  match e.result with
  | .ok value => ⟨.status (statusOf value), e.machine.output, ""⟩
  | .error failure => failed failure e.machine.output

/-- Says that there is no file. -/
def notFound (path : String) : Effect :=
  ⟨.status 1, "", "Error: file " ++ path ++ " not found\n"⟩

end Effect

namespace Command

/-- The name of the file that holds the trace. -/
def traceFile : String := "debug.txt"

/-- Checks the program that a file holds, and gives the trace of that. -/
def checkText (level : Nat) (text : String) : Effect × Trace :=
  match Program.parseFile text with
  | .error failure => (.failed (.syntactic failure) "", .start level)
  | .ok tree =>
      match checkProgram [] (.start level) tree with
      | (.ok _, s) => (⟨.done, "ok\n", ""⟩, s.trace)
      | (.error failure, s) => (.failed (.check failure) "", s.trace)

/-- The tree that a file holds. -/
def readTree (text : String) : Except CommandFailure Node :=
  match Json.read text with
  | .error fault => .error (.json fault)
  | .ok value =>
      match Tree.ofJson value with
      | .error fault => .error (.tree fault)
      | .ok tree => .ok tree

section Steps

variable {m : Type → Type} [Monad m] (files : Files m)

/-- Writes a file and goes on, unless that cannot be done. -/
def writing (path text : String) (next : m Effect) : m Effect := do
  match ← files.write path text with
  | some fault => return .broken (.file fault)
  | none => next

/-- Writes the trace, where there is one, and goes on. -/
def writingTrace (trace : Trace) (next : m Effect) : m Effect :=
  if trace.isOpen then writing files traceFile trace.text next else next

/-- Goes on with the text of a file. -/
def reading (path : String) (next : String → m Effect) : m Effect := do
  match ← files.contents path with
  | .missing => return .notFound path
  | .unusable fault => return .broken (.file fault)
  | .bytes bytes =>
      match String.fromUTF8? bytes with
      | some text => next text
      | none => return .broken .notText

/-- Checks a program.  The trace is open before the program is read. -/
def check (level : Nat) (path : String) : m Effect :=
  writingTrace files (.start level) <|
    reading files path fun text =>
      let (effect, trace) := checkText level text
      writingTrace files trace (pure effect)

/-- Writes the tree of a program into a file beside it. -/
def emit (path : String) : m Effect :=
  reading files path fun text =>
    match Program.parseFile text with
    | .error failure => pure (.failed (.syntactic failure) "")
    | .ok tree =>
        let target := path ++ ".ast.json"
        writing files target (Tree.toJson tree).fileText (pure ⟨.done, target ++ "\n", ""⟩)

/-- Ends with what running a program comes to. -/
def finish (e : ProgramEnd) : m Effect :=
  writingTrace files e.machine.trace (pure (.ofEnd e))

/-- Runs the tree that a file holds. -/
def runTree (settings : Settings) (steps level : Nat) (path : String) : m Effect :=
  reading files path fun text =>
    match readTree text with
    | .error failure => pure (.broken failure)
    | .ok tree =>
        finish files (Program.checkAndRun settings.strictly steps (.start level) tree)

/-- Runs the program that a file holds. -/
def run (settings : Settings) (steps level : Nat) (path : String) : m Effect :=
  reading files path fun text =>
    match Program.runFile settings steps level text with
    | .error failure => pure (.failed (.syntactic failure) "")
    | .ok e => finish files e

/-- What a command does. -/
def perform (settings : Settings) (steps : Nat) (c : Command) : m Effect :=
  let path := Path.plain c.file
  match c.mode with
  | .check => check files c.level path
  | .emit => emit files path
  | .tree => runTree files settings steps c.level path
  | .run => run files settings steps c.level path

end Steps

end Command
end BlockScript
