import BlockScript.Text.InFiles

/-!
# The trace

A run reports what it does in messages, each with a level: phases and calls have the
first, declarations and assignments the second, conditions and choices the third.  A
trace keeps the messages up to its own level; at level zero it keeps none.
-/

namespace BlockScript

/-- The messages of a run up to a level, the newest first. -/
structure Trace where
  level : Nat
  messages : List (Nat × String)
deriving DecidableEq, Inhabited

namespace Trace

/-- A trace without messages. -/
def start (level : Nat) : Trace := ⟨level, []⟩

/-- Keeps a message if its level is not above that of the trace. -/
def note (t : Trace) (level : Nat) (message : String) : Trace :=
  if level ≤ t.level then { t with messages := (level, message) :: t.messages } else t

/-- Whether there is a trace at all. -/
def isOpen (t : Trace) : Bool := 0 < t.level

/-- The messages in the order in which they came, one a line. -/
def text (t : Trace) : String :=
  t.messages.reverse.foldl (fun text m => text ++ m.2 ++ "\n") ""

/-- Whether every message can be written to a file. -/
def isWritable (t : Trace) : Bool := t.messages.all fun m => Text.isWritable m.2

/-- The trace up to its first message that cannot be written. -/
def writablePart (t : Trace) : Trace :=
  { t with messages := (t.messages.reverse.takeWhile fun m => Text.isWritable m.2).reverse }

end Trace
end BlockScript
