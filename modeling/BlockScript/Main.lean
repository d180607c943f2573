import BlockScript.CommandLine.Command

/-!
# The program

Reads the arguments and carries out the command that they give on the files of the disk.
-/

namespace BlockScript

/-- How the program is used. -/
def usage : String :=
  "usage: blockscript [-h] [-v] [--check FILE | --emit-ast FILE | --ast FILE] [program]"

/-- The bytes behind a handle.  A folder can be opened, and only reading it fails. -/
def contentsBehind (handle : IO.FS.Handle) : IO FileContents := do
  try
    let data ← handle.readBinToEnd
    return .bytes data
  catch
    | .inappropriateType .. => return .unusable .folder
    | _ => return .unusable .unreachable

/-- What a path leads to. -/
def contentsOnDisk (path : String) : IO FileContents := do
  try
    let handle ← IO.FS.Handle.mk path .read
    contentsBehind handle
  catch
    | .noFileOrDirectory .. => return .missing
    | .inappropriateType .. => return .missing
    | _ => return .unusable .unreachable

/-- Makes a path lead to a text. -/
def writeOnDisk (path text : String) : IO (Option FileFault) := do
  try
    IO.FS.writeFile path text
    return none
  catch
    | .inappropriateType .. => return some .folder
    | _ => return some .unreachable

/-- The files of the disk. -/
def disk : Files IO := ⟨contentsOnDisk, writeOnDisk⟩

/-- The exit code of a status, of which only the low byte is seen. -/
def exitCode (status : Int) : UInt32 :=
  if -2 ^ (63 : Nat) ≤ status ∧ status < 2 ^ (63 : Nat) then (status % 256).toNat.toUInt32 else 255

/-- Ends the program as a command does. -/
def endWith (effect : Effect) : IO UInt32 := do
  IO.print effect.output
  IO.eprint effect.errors
  match effect.ending with
  | .done => return 0
  | .status code => return exitCode code
  | .broken _ =>
      IO.eprintln "broken off"
      return 1

end BlockScript

open BlockScript in
/-- The program. -/
def main (arguments : List String) : IO UInt32 := do
  match Invocation.ofArguments arguments with
  | .help =>
      IO.println usage
      return 0
  | .misuse =>
      IO.eprintln usage
      return 2
  | .command c =>
      let effect ← c.perform disk .standard Program.manySteps
      endWith effect
