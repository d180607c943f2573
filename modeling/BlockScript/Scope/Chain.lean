import BlockScript.Scope.Basic

/-!
# Chains of scopes

The scopes that are open at one point of a program, from the current one outwards.
Bindings are made in the current scope; a lookup takes the nearest one.
-/

namespace BlockScript

/-- The current scope and those around it, the nearest first. -/
structure Chain where
  current : Scope
  outer : List Scope
deriving Inhabited

namespace Chain

/-- The chain that starts a program, around it the scope of its surroundings if any. -/
def root (surroundings : List Scope) : Chain := ⟨.builtin, surroundings⟩

/-- All scopes, the nearest first. -/
def toList (c : Chain) : List Scope := c.current :: c.outer

/-- Number of scopes. -/
def depth (c : Chain) : Nat := c.toList.length

/-- Opens a scope. -/
def push (c : Chain) : Chain := ⟨.empty, c.current :: c.outer⟩

/-- Leaves the current scope; the outermost one stays. -/
def pop (c : Chain) : Chain :=
  match c.outer with
  | [] => c
  | s :: outer => ⟨s, outer⟩

/-- The variable of a name in the nearest scope that has one. -/
def lookupVariable (c : Chain) (name : Name) : Except ScopeFault Variable :=
  match c.toList.findSome? fun s => s.findVariable? name with
  | some v => .ok v
  | none => .error (.undefinedVariable name.text)

/-- The function of a name and a number of parameters in the nearest scope that has one. -/
def lookupFunction (c : Chain) (name : Name) (arity : Nat) : Except ScopeFault Function :=
  match c.toList.findSome? fun s => s.findFunction? name arity with
  | some f => .ok f
  | none => .error (.undefinedFunction name.text arity)

/-- Binds a variable in the current scope. -/
def defineVariable (c : Chain) (v : Variable) : Except ScopeFault Chain :=
  (c.current.defineVariable v).map fun s => { c with current := s }

/-- Binds a function in the current scope. -/
def defineFunction (c : Chain) (f : Function) : Except ScopeFault Chain :=
  (c.current.defineFunction f).map fun s => { c with current := s }

/-- Stores a value into the variable of a name in the nearest scope that has one. -/
def setIn (name : Name) (value : Value) : List Scope → List Scope
  | [] => []
  | s :: outer =>
      if (s.findVariable? name).isSome then s.setVariable name value :: outer
      else s :: setIn name value outer

/-- Stores a value into the variable of a name in the nearest scope that has one. -/
def setVariable (c : Chain) (name : Name) (value : Value) : Chain :=
  if (c.current.findVariable? name).isSome then
    { c with current := c.current.setVariable name value }
  else { c with outer := setIn name value c.outer }

@[simp] theorem pop_push (c : Chain) : c.push.pop = c := rfl

@[simp] theorem toList_push (c : Chain) : c.push.toList = .empty :: c.toList := rfl

/-- Storing works on the row of scopes. -/
theorem toList_setVariable (c : Chain) (name : Name) (value : Value) :
    (c.setVariable name value).toList = setIn name value c.toList := by
  simp only [setVariable, toList, setIn]
  split <;> rfl

theorem length_setIn (name : Name) (value : Value) (ss : List Scope) :
    (setIn name value ss).length = ss.length := by
  induction ss with
  | nil => rfl
  | cons s outer ih =>
    simp only [setIn]
    split
    · rfl
    · simp [ih]

/-- Storing opens and leaves no scope. -/
@[simp] theorem depth_setVariable (c : Chain) (name : Name) (value : Value) :
    (c.setVariable name value).depth = c.depth := by
  rw [depth, toList_setVariable, length_setIn, depth]

end Chain
end BlockScript
