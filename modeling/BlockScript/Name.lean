import BlockScript.Json.Basic

/-!
# Names

Variables, functions, parameters, types and operators have names.  In a tree that was
made from source text every name is a text.  A tree that is read takes a name as it
stands there, and any value will do.

What is bound under a name is found under every name that is the same.  Texts are the
same when they are equal, and so are numbers, whatever their form; a truth value is the
number zero or one.  An array or an object is carried along like any other name, but
nothing can be found or bound under it.
-/

namespace BlockScript

/-- A name, as a tree gives it. -/
structure Name where
  value : Json
deriving DecidableEq, Inhabited

namespace Name

/-- The name that a text is. -/
def ofText (text : String) : Name := ⟨.string text⟩

instance : Coe String Name := ⟨ofText⟩

/-- The name that is left out. -/
def missing : Name := ⟨.null⟩

/-- A name that may be left out. -/
def ofText? : Option String → Name
  | some text => ofText text
  | none => missing

/-- Whether a name is left out. -/
def isMissing (n : Name) : Bool := n == missing

/-- What makes a name the name that it is: whole numbers stand for all numbers and truth
values that equal them, and every other value for itself. -/
def key (n : Name) : Json :=
  match n.value with
  | .boolean b => .integer b.toNat
  | .real (.finite d) =>
      if 0 ≤ d.exponent ∨ d.isZero then
        .integer (d.signedCoefficient * 10 ^ d.exponent.toNat)
      else n.value
  | value => value

/-- Whether two names are the same. -/
def same (a b : Name) : Bool := a.key == b.key

/-- The name in messages. -/
def text (n : Name) : String := n.value.describe

/-- Whether something can be found or bound under the name. -/
def isBindable (n : Name) : Bool :=
  match n.value with
  | .array _ => false
  | .object _ => false
  | _ => true

@[simp] theorem text_ofText (s : String) : (ofText s).text = s := rfl

@[simp] theorem key_ofText (s : String) : (ofText s).key = .string s := rfl

/-- Names are the same when their keys are. -/
theorem same_iff {a b : Name} : a.same b = true ↔ a.key = b.key := by
  simp [same]

@[simp] theorem same_refl (a : Name) : a.same a = true := by
  simp [same]

/-- Texts are the same name only when they are equal. -/
theorem same_ofText {s t : String} : (ofText s).same (ofText t) = true ↔ s = t := by
  simp [same]

@[simp] theorem isBindable_ofText (s : String) : (ofText s).isBindable = true := rfl

end Name
end BlockScript
