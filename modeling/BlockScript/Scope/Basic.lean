import BlockScript.Tree.Basic
import BlockScript.Value.Basic

/-!
# Scopes

A scope binds names to variables, and names with a number of parameters to functions.
The two kinds of bindings do not touch each other, and functions of one name with
different numbers of parameters are different functions.

Scopes nest.  A name that a scope does not bind is looked up in the one around it, so a
nearer binding hides an outer one.
-/

namespace BlockScript

/-- A variable: its declaration, and its value while a program runs.  A variable has no
type where its value is an empty list literal and no type is declared. -/
structure Variable where
  name : Name
  exportedName : Name
  type : Option StaticType
  isMutable : Bool
  value : Value
deriving Inhabited

/-- What a function does when it is called. -/
inductive Action
  /-- Writes its argument. -/
  | printer
  /-- Gives always the same value. -/
  | constant (value : Value)
  /-- Gives a list of its arguments. -/
  | collector
  /-- Runs the body of a declaration. -/
  | declared (parameters : List Name) (body : List Node)
deriving Inhabited

/-- A function with its signature. -/
structure Function where
  name : Name
  exportedName : Name
  parameterTypes : List StaticType
  returnType : StaticType
  action : Action
deriving Inhabited

namespace Function

/-- Number of parameters. -/
def arity (f : Function) : Nat := f.parameterTypes.length

/-- Whether a function is the one of a name and a number of parameters. -/
def answers (f : Function) (name : Name) (arity : Nat) : Bool :=
  f.name.same name && f.arity == arity

/-- The function that writes its argument. -/
def print : Function := ⟨"print", "System.out.println", [.any], .nil, .printer⟩

end Function

/-- Why a name has no binding, or cannot get one. -/
inductive ScopeFault
  | undefinedVariable (name : String)
  | undefinedFunction (name : String) (arity : Nat)
  | variableDefined (name : String)
  | functionDefined (name : String) (arity : Nat)
deriving DecidableEq, Inhabited

namespace ScopeFault

/-- A function in a message. -/
def signature (name : String) (arity : Nat) : String := name ++ "/" ++ Text.natText arity

/-- The message of a fault. -/
def message : ScopeFault → String
  | undefinedVariable name => "undefined variable " ++ name
  | undefinedFunction name arity => "undefined function " ++ signature name arity
  | variableDefined name => "variable " ++ name ++ " already defined in this scope"
  | functionDefined name arity =>
      "function " ++ signature name arity ++ " already defined in this scope"

end ScopeFault

/-- The bindings of one scope, the newest first. -/
structure Scope where
  vars : List Variable
  functions : List Function
deriving Inhabited

namespace Scope

/-- The scope without bindings. -/
def empty : Scope := ⟨[], []⟩

/-- The scope that binds the functions every program starts with. -/
def builtin : Scope := ⟨[], [.print]⟩

/-- The variable of a name in this scope. -/
def findVariable? (s : Scope) (name : Name) : Option Variable :=
  s.vars.find? fun v => v.name.same name

/-- The function of a name and a number of parameters in this scope. -/
def findFunction? (s : Scope) (name : Name) (arity : Nat) : Option Function :=
  s.functions.find? fun f => f.answers name arity

/-- Binds a variable, unless the scope has one of its name. -/
def defineVariable (s : Scope) (v : Variable) : Except ScopeFault Scope :=
  match s.findVariable? v.name with
  | some _ => .error (.variableDefined v.name.text)
  | none => .ok { s with vars := v :: s.vars }

/-- Binds a function, unless the scope has one of its name and number of parameters. -/
def defineFunction (s : Scope) (f : Function) : Except ScopeFault Scope :=
  match s.findFunction? f.name f.arity with
  | some _ => .error (.functionDefined f.name.text f.arity)
  | none => .ok { s with functions := f :: s.functions }

/-- Stores a value into the variable of a name. -/
def setVariable (s : Scope) (name : Name) (value : Value) : Scope :=
  { s with vars :=
      s.vars.map fun v => if v.name.same name then { v with value := value } else v }

end Scope
end BlockScript
