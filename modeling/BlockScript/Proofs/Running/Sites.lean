import BlockScript.Proofs.Running.Points
import BlockScript.Proofs.Tree.Order
import BlockScript.Proofs.Typing.Declarations

/-!
# Where a run stands in its text

Two parts of a node can be equal, so a point of a run does not say which of them is met.  A
site does: it has the place of the node among the recorded nodes of the program.  With it go
the state that the check of the program has there, and the scopes that the run has opened,
each with what has bound its variables: a declaration or a parameter, again known by its place.

Sites follow a run step by step, as its points do.
-/

namespace BlockScript

/-- What binds a variable: the declaration at a place, or a parameter of the function that is
declared there. -/
inductive Origin
  | declaration (place : Nat)
  | parameter (place index : Nat)
deriving DecidableEq

namespace Origin

/-- The origins of the parameters of a function from an index on, in front of others; the last
parameter is the newest one. -/
def parameters (place : Nat) : Nat → List Name → List Origin → List Origin
  | _, [], origins => origins
  | index, _ :: names, origins =>
      parameters place (index + 1) names (.parameter place index :: origins)

end Origin

/-- A scope that a run has opened: for a block, with the origins of its variables, the newest
first, or for a switch. -/
inductive Room
  | block (origins : List Origin)
  | switch
deriving DecidableEq

namespace Room

/-- The innermost block has one variable more. -/
def bind (origin : Origin) : List Room → List Room
  | block origins :: rooms => block (origin :: origins) :: rooms
  | rooms => rooms

end Room

/-- Where a run stands. -/
structure Site where
  /-- The place of the node that is met. -/
  place : Nat
  /-- The state that the check of the program has at the node. -/
  state : CheckState
  /-- The place of the function that is called, if one is. -/
  function : Option Nat
  /-- The scopes that the call has opened, the innermost first. -/
  rooms : List Room
  /-- The scopes that the calls around it have opened. -/
  callers : List Room
  /-- The origins of the globals. -/
  globals : List Origin

namespace Site

/-- Where a run starts, if its check starts from a state. -/
def start (opening : CheckState) : Site := ⟨0, opening, none, [], [], []⟩

/-- Further on by some recorded nodes. -/
def forward (x : Site) (nodes : List Node) : Site := { x with place := x.place + nodes.length }

/-- In a block that opens. -/
def enter (x : Site) : Site :=
  { x with state := x.state.enter, rooms := .block [] :: x.rooms }

/-- In the scope of a switch. -/
def enterSwitch (x : Site) : Site := { x with rooms := .switch :: x.rooms }

/-- Behind a statement or a declaration. -/
def behind (x : Site) (node : Node) : Site where
  place := x.place + node.recorded.length
  state := (Typing.check node x.state).2
  function := x.function
  rooms := match node with
    | .declaration _ _ _ => Room.bind (.declaration x.place) x.rooms
    | _ => x.rooms
  callers := x.callers
  globals := match node with
    | .global _ _ _ _ => .declaration x.place :: x.globals
    | _ => x.globals

/-- Behind a row of statements or declarations. -/
def along (x : Site) (nodes : List Node) : Site := nodes.foldl behind x

/-- At the first statement of a function that is declared at a place and called from here. -/
def call (x : Site) (place : Nat) (parameters : List Name) (entry : CheckState) : Site where
  place := place + 1
  state := entry
  function := some place
  rooms := [.block (Origin.parameters place 0 parameters [])]
  callers := x.rooms ++ x.callers
  globals := x.globals

/-- All scopes that a run has opened. -/
def opened (x : Site) : List Room := x.rooms ++ x.callers ++ [.block x.globals]

/-- Behind all declarations of a program. -/
def ending (opening : CheckState) : Node → Site
  | .source globals functions => (start opening).along (globals ++ functions)
  | _ => start opening

theorem along_cons (x : Site) (node : Node) (nodes : List Node) :
    x.along (node :: nodes) = (x.behind node).along nodes := rfl

theorem along_append (x : Site) (before behind : List Node) :
    x.along (before ++ behind) = (x.along before).along behind := List.foldl_append

theorem behind_state {x : Site} {node : Node} {a : List Annotation} {c' : CheckState}
    (h : Typing.check node x.state = (.ok a, c')) : (x.behind node).state = c' :=
  congrArg Prod.snd h

/-- A site at which no function runs and no scope is open but the outermost one. -/
structure Outside (x : Site) : Prop where
  function : x.function = none
  rooms : x.rooms = []
  callers : x.callers = []

theorem Outside.behind {x : Site} (h : x.Outside) {node : Node}
    (hnode : ∀ name typeName value, node ≠ .declaration name typeName value) :
    (x.behind node).Outside := by
  refine ⟨h.function, ?_, h.callers⟩
  rw [← h.rooms]
  cases node with
  | declaration name typeName value => exact absurd rfl (hnode name typeName value)
  | _ => rfl

end Site

namespace Running

open Typing

/-- A function is declared at a place of a program, and from a state its body is checked. -/
inductive EntersBody (program : Node) (opening : CheckState) (f : Function) :
    Nat → CheckState → Prop
  | intro {globals before behind : List Node} {parameters parameterTypes : List Name}
      {returnType : Name} {body : List Node} {declared : Function} {entry : CheckState}
      {place : Nat} :
      program = .source globals
        (before ++ .function f.name parameters parameterTypes returnType body :: behind) →
      f.action = .declared parameters body →
      enterBody f.name parameters parameterTypes returnType body
        ((Site.start opening).along (globals ++ before)).state = (.ok declared, entry) →
      place = ((Site.start opening).along (globals ++ before)).place →
      EntersBody program opening f place entry

variable (settings : Settings) (program : Node) (opening : CheckState)

/-- A point that the run of another one meets next, with its site. -/
inductive LocatedPart : Point Site → Point Site → Prop
  | group {steps calls : Nat} {e : Node} {m : Machine} {x : Site} :
      LocatedPart ⟨.expression, steps + 1, calls, .group e, m, x⟩
        ⟨.expression, steps, calls, e, m, x.forward [.group e]⟩
  | left {steps calls : Nat} {operator : Name} {l r : Node} {m : Machine} {x : Site} :
      LocatedPart ⟨.expression, steps + 1, calls, .binary operator l r, m, x⟩
        ⟨.expression, steps, calls, l, m, x.forward [.binary operator l r]⟩
  | right {steps calls : Nat} {operator : Name} {l r : Node} {a : Value} {m m₁ : Machine}
      {x : Site} :
      evaluate settings steps calls l m = (.ok a, m₁) →
      (operator.text = "&&" → a = .boolean true) → (operator.text = "||" → a = .boolean false) →
      LocatedPart ⟨.expression, steps + 1, calls, .binary operator l r, m, x⟩
        ⟨.expression, steps, calls, r, m₁, x.forward (.binary operator l r :: l.recorded)⟩
  | offset {steps calls : Nat} {name : Name} {offset : Node} {v : Variable} {r : Nat}
      {m : Machine} {x : Site} :
      offset.isAbsent = false → lookupVariable name m = (.ok v, m) → v.value = .list r →
      LocatedPart ⟨.expression, steps + 1, calls, .access name offset, m, x⟩
        ⟨.expression, steps, calls, offset, m, x.forward [.access name offset]⟩
  | argument {steps calls : Nat} {name : Name} {before behind : List Node} {e : Node}
      {values : List Value} {m m₁ : Machine} {x : Site} :
      evaluateAll (evaluate settings steps calls) before m = (.ok values, m₁) →
      LocatedPart ⟨.expression, steps + 1, calls, .call name (before ++ e :: behind), m, x⟩
        ⟨.expression, steps, calls, e, m₁,
          x.forward (.call name (before ++ e :: behind) :: Node.recordedOf before)⟩
  | element {steps calls : Nat} {before behind : List Node} {e : Node} {values : List Value}
      {m m₁ : Machine} {x : Site} :
      evaluateAll (evaluate settings steps calls) before m = (.ok values, m₁) →
      LocatedPart ⟨.expression, steps + 1, calls, .list (before ++ e :: behind), m, x⟩
        ⟨.expression, steps, calls, e, m₁,
          x.forward (.list (before ++ e :: behind) :: Node.recordedOf before)⟩
  | body {steps calls place : Nat} {name : Name} {arguments before behind : List Node} {s : Node}
      {values : List Value} {f : Function} {parameters : List Name} {m m₁ m₂ m₃ m₄ : Machine}
      {x : Site} {entry : CheckState} :
      evaluateAll (evaluate settings steps (calls + 1)) arguments m = (.ok values, m₁) →
      lookupFunction name values.length m₁ = (.ok f, m₁) →
      f.action = .declared parameters (before ++ s :: behind) →
      note settings 1 ("call " ++ ScopeFault.signature name.text values.length) m₁ =
        (.ok (), m₂) →
      bindParameters parameters values m₂.enter = (.ok (), m₃) →
      executeAll (execute settings steps calls) before m₃ = (.ok .finished, m₄) →
      EntersBody program opening f place entry →
      LocatedPart ⟨.expression, steps + 1, calls + 1, .call name arguments, m, x⟩
        ⟨.statement, steps, calls, s, m₄, (x.call place parameters entry).along before⟩
  | initial {steps calls : Nat} {name typeName : Name} {isMutable : Bool} {e : Node}
      {m : Machine} {x : Site} :
      e.isAbsent = false →
      LocatedPart ⟨.statement, steps + 1, calls, .global name typeName isMutable e, m, x⟩
        ⟨.expression, steps, calls, e, m, x.forward [.global name typeName isMutable e]⟩
  | declared {steps calls : Nat} {name typeName : Name} {e : Node} {m : Machine} {x : Site} :
      e.isAbsent = false →
      LocatedPart ⟨.statement, steps + 1, calls, .declaration name typeName e, m, x⟩
        ⟨.expression, steps, calls, e, m, x.forward [.declaration name typeName e]⟩
  | evaluated {steps calls : Nat} {e : Node} {m : Machine} {x : Site} :
      LocatedPart ⟨.statement, steps + 1, calls, .evaluation e, m, x⟩
        ⟨.expression, steps, calls, e, m, x⟩
  | returned {steps calls : Nat} {e : Node} {m : Machine} {x : Site} :
      e.isAbsent = false →
      LocatedPart ⟨.statement, steps + 1, calls, .returning e, m, x⟩
        ⟨.expression, steps, calls, e, m, x⟩
  | assigned {steps calls : Nat} {target e : Node} {m : Machine} {x : Site} :
      LocatedPart ⟨.statement, steps + 1, calls, .assignment target e, m, x⟩
        ⟨.expression, steps, calls, e, m, x.forward target.recorded⟩
  | targetOffset {steps calls : Nat} {name : Name} {offset e : Node} {value : Value}
      {v : Variable} {r : Nat} {m m₁ : Machine} {x : Site} :
      evaluate settings steps calls e m = (.ok value, m₁) → offset.isAbsent = false →
      lookupVariable name m₁ = (.ok v, m₁) → v.value = .list r →
      LocatedPart ⟨.statement, steps + 1, calls, .assignment (.access name offset) e, m, x⟩
        ⟨.expression, steps, calls, offset, m₁, x.forward [.access name offset]⟩
  | condition {steps calls : Nat} {c : Node} {thenBody elseBody : List Node} {m : Machine}
      {x : Site} :
      LocatedPart ⟨.statement, steps + 1, calls, .conditional c thenBody elseBody, m, x⟩
        ⟨.expression, steps, calls, c, m, x⟩
  | thenBranch {steps calls : Nat} {c s : Node} {elseBody before behind : List Node}
      {m m₁ m₂ m₃ : Machine} {x : Site} :
      evaluate settings steps calls c m = (.ok (.boolean true), m₁) →
      note settings 3 ("if condition -> " ++ truthText true) m₁ = (.ok (), m₂) →
      executeAll (execute settings steps calls) before m₂.enter = (.ok .finished, m₃) →
      LocatedPart
        ⟨.statement, steps + 1, calls, .conditional c (before ++ s :: behind) elseBody, m, x⟩
        ⟨.statement, steps, calls, s, m₃, (x.forward c.recorded).enter.along before⟩
  | elseBranch {steps calls : Nat} {c s : Node} {thenBody before behind : List Node}
      {m m₁ m₂ m₃ : Machine} {x : Site} :
      evaluate settings steps calls c m = (.ok (.boolean false), m₁) →
      note settings 3 ("if condition -> " ++ truthText false) m₁ = (.ok (), m₂) →
      executeAll (execute settings steps calls) before m₂.enter = (.ok .finished, m₃) →
      LocatedPart
        ⟨.statement, steps + 1, calls, .conditional c thenBody (before ++ s :: behind), m, x⟩
        ⟨.statement, steps, calls, s, m₃,
          (x.forward (c.recorded ++ Node.recordedOf thenBody)).enter.along before⟩
  | repeated {steps calls : Nat} {c : Node} {body : List Node} {m : Machine} {x : Site} :
      LocatedPart ⟨.statement, steps + 1, calls, .loop c body, m, x⟩
        ⟨.expression, steps, calls, c, m, x⟩
  | iteration {steps calls : Nat} {c s : Node} {before behind : List Node}
      {m m₁ m₂ : Machine} {x : Site} :
      evaluate settings steps calls c m = (.ok (.boolean true), m₁) →
      executeAll (execute settings steps calls) before m₁.enter = (.ok .finished, m₂) →
      LocatedPart ⟨.statement, steps + 1, calls, .loop c (before ++ s :: behind), m, x⟩
        ⟨.statement, steps, calls, s, m₂, (x.forward c.recorded).enter.along before⟩
  | again {steps calls : Nat} {c : Node} {body : List Node} {m m₁ m₂ : Machine} {x : Site} :
      evaluate settings steps calls c m = (.ok (.boolean true), m₁) →
      inScope (executeAll (execute settings steps calls) body) m₁ = (.ok .finished, m₂) →
      LocatedPart ⟨.statement, steps + 1, calls, .loop c body, m, x⟩
        ⟨.statement, steps, calls, .loop c body, m₂, x⟩
  | subject {steps calls : Nat} {c : Node} {arms : List Node} {m : Machine} {x : Site} :
      LocatedPart ⟨.statement, steps + 1, calls, .switch c arms, m, x⟩
        ⟨.expression, steps, calls, c, m.enter, x.enterSwitch⟩
  | compared {steps calls : Nat} {c e arm : Node} {before behind : List Node}
      {value : Value} {m m₁ m₂ m₃ : Machine} {x : Site} :
      evaluate settings steps calls c m.enter = (.ok value, m₁) →
      bindVariable switchName true value m₁ = (.ok (), m₂) →
      Passed settings (evaluate settings steps calls) value before m₂ m₃ →
      arm.valuePart = .tree e → e.isAbsent = false →
      LocatedPart ⟨.statement, steps + 1, calls, .switch c (before ++ arm :: behind), m, x⟩
        ⟨.expression, steps, calls, e, m₃,
          x.enterSwitch.forward (c.recorded ++ Node.recordedOf before)⟩
  | chosen {steps calls : Nat} {c e arm : Node} {before behind : List Node}
      {value : Value} {m m₁ m₂ m₃ m₄ m₅ : Machine} {x : Site} :
      evaluate settings steps calls c m.enter = (.ok value, m₁) →
      bindVariable switchName true value m₁ = (.ok (), m₂) →
      Passed settings (evaluate settings steps calls) value before m₂ m₃ →
      arm.valuePart = .tree e →
      meets settings (evaluate settings steps calls) value e m₃ = (.ok true, m₄) →
      note settings 3 ("switch selected case " ++ Text.natText before.length) m₄ = (.ok (), m₅) →
      LocatedPart ⟨.statement, steps + 1, calls, .switch c (before ++ arm :: behind), m, x⟩
        ⟨.statement, steps, calls, arm, m₅,
          x.enterSwitch.forward (c.recorded ++ Node.recordedOf before)⟩
  | armBody {steps calls : Nat} {e s : Node} {before behind : List Node} {m m₁ : Machine}
      {x : Site} :
      executeAll (execute settings steps calls) before m.enter = (.ok .finished, m₁) →
      LocatedPart ⟨.statement, steps + 1, calls, .arm e (before ++ s :: behind), m, x⟩
        ⟨.statement, steps, calls, s, m₁, (x.forward e.recorded).enter.along before⟩

/-- A point that the run of a program starts with, with its site. -/
inductive LocatedStart (steps : Nat) (m : Machine) : Point Site → Prop
  | global {before behind functions : List Node} {node : Node} {m₁ : Machine} :
      program = .source (before ++ node :: behind) functions →
      executeEach settings steps before m = (.ok (), m₁) →
      LocatedStart steps m
        ⟨.statement, steps, settings.calls, node, m₁, (Site.start opening).along before⟩
  | function {globals before behind : List Node} {node : Node} {m₁ m₂ : Machine} :
      program = .source globals (before ++ node :: behind) →
      executeEach settings steps globals m = (.ok (), m₁) →
      executeEach settings steps before m₁ = (.ok (), m₂) →
      LocatedStart steps m
        ⟨.statement, steps, settings.calls, node, m₂,
          (Site.start opening).along (globals ++ before)⟩
  | main {calls place : Nat} {globals functions before behind : List Node} {s : Node}
      {f : Function} {parameters : List Name} {entry : CheckState} {m₁ m₂ m₃ m₄ m₅ : Machine} :
      program = .source globals functions →
      executeEach settings steps globals m = (.ok (), m₁) →
      executeEach settings steps functions m₁ = (.ok (), m₂) →
      mainFunction m₂ = (.ok f, m₂) → f.action = .declared parameters (before ++ s :: behind) →
      note settings 1 "run: main" m₂ = (.ok (), m₃) → settings.calls = calls + 1 →
      bindParameters parameters [] m₃.enter = (.ok (), m₄) →
      executeAll (execute settings steps calls) before m₄ = (.ok .finished, m₅) →
      EntersBody program opening f place entry →
      LocatedStart steps m
        ⟨.statement, steps, calls, s, m₅,
          (((Site.start opening).along (globals ++ functions)).call place parameters
            entry).along before⟩

/-- A point that the run of a program reaches, with its site. -/
def Located (steps : Nat) (m : Machine) (p : Point Site) : Prop :=
  ∃ p₀, LocatedStart settings program opening steps m p₀ ∧
    Relation.ReflTransGen (LocatedPart settings program opening) p₀ p

variable {settings program opening}

/-- What every start has and every part inherits holds at all points that are reached. -/
theorem Located.induction {steps : Nat} {m : Machine} {holds : Point Site → Prop} {p : Point Site}
    (hstarts : ∀ p, LocatedStart settings program opening steps m p → holds p)
    (hpart : ∀ p q, LocatedPart settings program opening p q → holds p → holds q)
    (hp : Located settings program opening steps m p) : holds p := by
  obtain ⟨p₀, hp₀, hpath⟩ := hp
  induction hpath with
  | refl => exact hstarts p₀ hp₀
  | tail _ hq ih => exact hpart _ _ hq ih

end Running
end BlockScript
