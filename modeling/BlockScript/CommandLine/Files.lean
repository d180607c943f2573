/-!
# Files and their paths

What commands ask of the files around them: what a path leads to, and to put a text in
its place.  Commands are written over any way to answer that, so that they can be run on
a disk and reasoned about on files that are only described.

A path is written without what does not matter in it: repeated separators, steps to the
folder itself, and a separator at the end.  Steps to the folder above stay, and so do
exactly two separators at the front.
-/

namespace BlockScript

/-- Why a path cannot be used. -/
inductive FileFault
  /-- It leads to a folder. -/
  | folder
  /-- It leads nowhere: a name is too long, or access is denied. -/
  | unreachable
deriving DecidableEq, Inhabited

/-- What a path leads to. -/
inductive FileContents
  | missing
  | unusable (fault : FileFault)
  | bytes (contents : ByteArray)
deriving Inhabited

/-- The files around a command. -/
structure Files (m : Type → Type) where
  /-- What a path leads to. -/
  contents (path : String) : m FileContents
  /-- Makes a path lead to a text, or says why that cannot be. -/
  write (path text : String) : m (Option FileFault)

namespace Path

/-- The parts of a path between its separators. -/
def split : List Char → List (List Char)
  | [] => [[]]
  | c :: cs =>
      match split cs with
      | [] => []
      | part :: parts => if c = '/' then [] :: part :: parts else (c :: part) :: parts

/-- The parts of a path that matter. -/
def parts (path : String) : List String :=
  ((split path.toList).filter fun part => part ≠ [] ∧ part ≠ ['.']).map String.ofList

/-- The separators at the front of a path. -/
def root (path : String) : String :=
  match path.toList with
  | '/' :: '/' :: '/' :: _ => "/"
  | '/' :: '/' :: _ => "//"
  | '/' :: _ => "/"
  | _ => ""

/-- The path in its plain form. -/
def plain (path : String) : String :=
  let text := root path ++ "/".intercalate (parts path)
  if text = "" then "." else text

end Path
end BlockScript
