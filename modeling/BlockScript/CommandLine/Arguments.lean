import BlockScript.Text.DecimalDigit

/-!
# Arguments of the command line

An invocation names a file that holds a program, or one of three options with a file:
`--check`, `--emit-ast` and `--ast`, of which only one may be given.  `-v` makes the
trace more detailed each time it is given.

Options may stand anywhere.  The value of an option follows as the next word, or behind
an equals sign; a long option may be cut short as long as only one begins like that; and
short options may share one dash, also with an equals sign behind the first of them.
Words behind `--` are no options, and as the value of an option it counts as empty.  A
word that begins with a dash is nevertheless plain if it is a number or has a blank in it.
-/

namespace BlockScript

/-- What is done with a file. -/
inductive Mode
  | check | emit | tree | run
deriving DecidableEq, Inhabited

/-- A command: what is done with which file, and the level of the trace. -/
structure Command where
  mode : Mode
  file : String
  level : Nat
deriving DecidableEq, Inhabited

/-- What a command line asks for. -/
inductive Invocation
  /-- To be told how the program is used. -/
  | help
  /-- Nothing that the program does. -/
  | misuse
  | command (c : Command)
deriving DecidableEq, Inhabited

namespace Invocation

/-- An option; the ones with a file stand for a mode. -/
inductive Flag
  | help
  | verbose
  | mode (m : Mode)
deriving DecidableEq, Inhabited

/-- A word of the command line before the `--`. -/
inductive Word
  | plain (text : String)
  /-- An option; one with a file may have it attached. -/
  | flag (f : Flag) (file : Option String)
  /-- Short options behind one dash. -/
  | row (fs : List Flag)
  /-- An option with something attached that it does not take. -/
  | malformed
  | unknown
deriving DecidableEq, Inhabited

/-- The options and their names. -/
def flags : List (String × Flag) :=
  [("-h", .help), ("--help", .help), ("-v", .verbose), ("--check", .mode .check),
    ("--emit-ast", .mode .emit), ("--ast", .mode .tree)]

/-- The option of a name. -/
def flag? (name : String) : Option Flag := flags.lookup name

/-- A value that is attached to an option. -/
def attachedValue (value : String) : String := if value = "--" then "" else value

/-- An option by its long name, which may have a value attached. -/
def longWord (f : Flag) (value : Option String) : Word :=
  match f, value with
  | f, none => .flag f none
  | .mode m, some value => .flag (.mode m) (some (attachedValue value))
  | _, some _ => .malformed

/-- The short options that a row of letters adds to one. -/
def sharing (f : Flag) : List Char → Option (List Flag)
  | [] => some [f]
  | c :: cs => do
      let next ← flag? (String.ofList ['-', c])
      let others ← sharing next cs
      return f :: others

/-- A short option with letters attached. -/
def shortWord (f : Flag) (letters : List Char) : Word :=
  match sharing f letters with
  | some fs => .row fs
  | none => .malformed

/-- Splits a text at its first equals sign, if it has one. -/
def splitAtEquals (text : String) : String × Option String :=
  let cs := text.toList
  match cs.dropWhile (· ≠ '=') with
  | _ :: value => (String.ofList (cs.takeWhile (· ≠ '=')), some (String.ofList value))
  | [] => (text, none)

/-- A text without the line feed that may end it. -/
def withoutLineFeed (cs : List Char) : List Char :=
  if cs.getLast? = some '\n' then cs.dropLast else cs

/-- Whether a word is a negative number, with or without a fraction. -/
def isNegativeNumber (cs : List Char) : Bool :=
  match withoutLineFeed cs with
  | '-' :: ds =>
      match ds.dropWhile Text.isAnyDigit with
      | [] => !ds.isEmpty
      | '.' :: fraction => !fraction.isEmpty && fraction.all Text.isAnyDigit
      | _ => false
  | _ => false

/-- A word that begins with a dash and is no option. -/
def noOption (text : String) : Word :=
  let cs := text.toList
  if isNegativeNumber cs || cs.contains ' ' then .plain text else .unknown

/-- A word that begins with two dashes and may cut an option short; there is none if
several options begin like that. -/
def abbreviated (text : String) : Option Word :=
  let (name, value) := splitAtEquals text
  match flags.filter fun entry => entry.1.startsWith name with
  | [] => some (noOption text)
  | [entry] => some (longWord entry.2 value)
  | _ => none

/-- A word that begins with one dash and may be short options that share it. -/
def clustered (text : String) : Word :=
  match flag? (String.ofList (text.toList.take 2)) with
  | some f => shortWord f (text.toList.drop 2)
  | none => noOption text

/-- An option with its value behind an equals sign.  Behind a short option stand others
there, and at least one. -/
def withValue? (text : String) : Option Word :=
  match splitAtEquals text with
  | (name, some value) =>
      (flag? name).map fun f =>
        if name.length = 2 ∧ value ≠ "" then shortWord f value.toList else longWord f (some value)
  | (_, none) => none

/-- What a word is, unless it is ambiguous. -/
def classify (text : String) : Option Word :=
  match text.toList with
  | '-' :: second :: _ =>
      match flag? text with
      | some f => some (.flag f none)
      | none =>
          match withValue? text with
          | some word => some word
          | none => if second = '-' then abbreviated text else some (clustered text)
  | _ => some (.plain text)

/-- What the words up to some point ask for. -/
structure Request where
  level : Nat
  chosen : Option (Mode × String)
  program : Option String
  /-- Whether there were words that have no place. -/
  hasExtra : Bool
deriving DecidableEq, Inhabited

namespace Request

/-- The request of an empty command line. -/
def empty : Request := ⟨0, none, none, false⟩

/-- Takes a plain word: the first one is the program. -/
def plain (r : Request) (text : String) : Request :=
  match r.program with
  | none => { r with program := some text }
  | some _ => { r with hasExtra := true }

/-- Chooses a mode with its file, unless another mode is chosen. -/
def choose (r : Request) (m : Mode) (file : String) : Option Request :=
  match r.chosen with
  | none => some { r with chosen := some (m, file) }
  | some (other, _) => if other = m then some { r with chosen := some (m, file) } else none

/-- Makes the trace more detailed. -/
def raise (r : Request) (levels : Nat) : Request := { r with level := r.level + levels }

/-- What a request comes down to where no mode is chosen. -/
def running (r : Request) : Invocation :=
  match r.program with
  | some file => if file = "" then .misuse else .command ⟨.run, file, r.level⟩
  | none => .misuse

/-- What a request comes down to. -/
def invocation (r : Request) : Invocation :=
  if r.hasExtra then .misuse
  else match r.chosen with
    | some (m, file) => if file = "" then r.running else .command ⟨m, file, r.level⟩
    | none => r.running

end Request

/-- Takes the words behind `--`, none of which is an option. -/
def afterSeparator (r : Request) (words : List String) : Request :=
  match r.program, words with
  | none, [] => r
  | none, text :: rest =>
      { r with program := some text, hasExtra := r.hasExtra || !rest.isEmpty }
  | some _, _ => { r with hasExtra := true }

/-- Takes the words one after the other.  `tail` holds the words behind `--`, if that is
given; directly behind the program it has no effect of its own. -/
def take (r : Request) (tail : Option (List String)) : List Word → Invocation
  | [] =>
      match tail with
      | none => r.invocation
      | some words => (afterSeparator r words).invocation
  | [.plain text] =>
      match r.program, tail with
      | none, some words =>
          { r with program := some text, hasExtra := r.hasExtra || !words.isEmpty }.invocation
      | _, none => (r.plain text).invocation
      | some _, some _ => .misuse
  | .plain text :: words => take (r.plain text) tail words
  | .unknown :: words => take { r with hasExtra := true } tail words
  | .malformed :: _ => .misuse
  | .row fs :: words =>
      if fs.contains .help then .help else take (r.raise fs.length) tail words
  | .flag .help _ :: _ => .help
  | .flag .verbose _ :: words => take (r.raise 1) tail words
  | .flag (.mode m) (some file) :: words =>
      match r.choose m file with
      | some r' => take r' tail words
      | none => .misuse
  | .flag (.mode m) none :: .plain file :: words =>
      match r.choose m file with
      | some r' => take r' tail words
      | none => .misuse
  | .flag (.mode _) none :: _ => .misuse

/-- The invocation of a command line. -/
def ofArguments (arguments : List String) : Invocation :=
  let front := arguments.takeWhile (· ≠ "--")
  let tail := (arguments.dropWhile (· ≠ "--")).tail?
  match front.mapM classify with
  | some words => take .empty tail words
  | none => .misuse

end Invocation
end BlockScript
