import BlockScript.Scope.Basic

/-!
# Forests of scopes

Scopes are numbered as they are made, and each may have an earlier one around it.
Bindings are shared by all scopes inside the one that has them: a value stored through
one of them is seen through every other.
-/

namespace BlockScript

/-- Numbered scopes, each with the number of the scope around it if there is one. -/
structure Forest where
  scopes : Array (Option Nat × Scope)
deriving Inhabited

namespace Forest

/-- The forest without scopes. -/
def empty : Forest := ⟨#[]⟩

/-- The scope of a number. -/
def scope (f : Forest) (i : Nat) : Scope := (f.scopes.getD i (none, .empty)).2

/-- The number of the scope around another, which is always the smaller one. -/
def parent? (f : Forest) (i : Nat) : Option Nat :=
  match (f.scopes.getD i (none, .empty)).1 with
  | some p => if p < i then some p else none
  | none => none

theorem parent?_lt {f : Forest} {i p : Nat} (h : f.parent? i = some p) : p < i := by
  unfold parent? at h
  split at h
  · split at h
    · rename_i hlt
      cases h
      exact hlt
    · cases h
  · cases h

/-- The numbers of a scope and of those around it, the nearest first. -/
def path (f : Forest) (i : Nat) : List Nat :=
  match _h : f.parent? i with
  | some p => i :: f.path p
  | none => [i]
termination_by i
decreasing_by exact parent?_lt (by assumption)

/-- Number of scopes from one to its root. -/
def depth (f : Forest) (i : Nat) : Nat := (f.path i).length

/-- Makes a scope, and gives its number. -/
def add (f : Forest) (parent : Option Nat) : Nat × Forest :=
  (f.scopes.size, ⟨f.scopes.push (parent, .empty)⟩)

/-- Replaces the bindings of a scope. -/
def replace (f : Forest) (i : Nat) (s : Scope) : Forest :=
  ⟨f.scopes.modify i fun entry => (entry.1, s)⟩

/-- The number of the nearest scope that binds a variable. -/
def owner? (f : Forest) (i : Nat) (name : Name) : Option Nat :=
  (f.path i).find? fun j => ((f.scope j).findVariable? name).isSome

/-- The variable of a name as one scope sees it. -/
def lookupVariable (f : Forest) (i : Nat) (name : Name) : Except ScopeFault Variable :=
  match (f.path i).findSome? fun j => (f.scope j).findVariable? name with
  | some v => .ok v
  | none => .error (.undefinedVariable name.text)

/-- The function of a name and a number of parameters as one scope sees it. -/
def lookupFunction (f : Forest) (i : Nat) (name : Name) (arity : Nat) :
    Except ScopeFault Function :=
  match (f.path i).findSome? fun j => (f.scope j).findFunction? name arity with
  | some g => .ok g
  | none => .error (.undefinedFunction name.text arity)

/-- Binds a variable in a scope. -/
def defineVariable (f : Forest) (i : Nat) (v : Variable) : Except ScopeFault Forest :=
  ((f.scope i).defineVariable v).map (f.replace i)

/-- Binds a function in a scope. -/
def defineFunction (f : Forest) (i : Nat) (g : Function) : Except ScopeFault Forest :=
  ((f.scope i).defineFunction g).map (f.replace i)

/-- Stores a value into the variable of a name as one scope sees it. -/
def setVariable (f : Forest) (i : Nat) (name : Name) (value : Value) :
    Except ScopeFault Forest :=
  match f.owner? i name with
  | some j => .ok (f.replace j ((f.scope j).setVariable name value))
  | none => .error (.undefinedVariable name.text)

end Forest
end BlockScript
