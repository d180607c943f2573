import BlockScript.Running.Program
import Mathlib.Logic.Relation

/-!
# The points of a run

A point of a run is a node with the machine that it is evaluated or executed on.  The run
of a node meets the points of its parts, one after the other, as far as the parts before
them have come to an end.  The points that a run of a program reaches are those that it
starts with, their parts, the parts of these, and so on.

A companion says what is known at a point beyond the run itself, such as the scopes of the
text.  It follows the run: into blocks and out of them, past statements and into calls.
-/

namespace BlockScript
namespace Running

/-- Whether a node is met as an expression or as a statement. -/
inductive Role
  | expression
  | statement
deriving DecidableEq

/-- A node that is about to be evaluated or executed. -/
structure Point (δ : Type) where
  role : Role
  steps : Nat
  calls : Nat
  node : Node
  machine : Machine
  companion : δ

/-- How a companion follows a run. -/
structure Companion (δ : Type) where
  /-- What is known at the first statement of a block. -/
  enter : δ → δ
  /-- What is known behind a statement. -/
  after : Node → δ → δ
  /-- What is known at the first statement of a function, from what is known at its call. -/
  call : Function → δ → δ → Prop

/-- The companion of a run of which nothing more is known. -/
def Companion.trivial : Companion Unit where
  enter := id
  after _ := id
  call _ _ _ := True

namespace Companion

variable {δ : Type}

/-- What is known behind a row of statements. -/
def afterAll (k : Companion δ) (nodes : List Node) (d : δ) : δ :=
  nodes.foldl (fun d node => k.after node d) d

end Companion

/-- Cases of a switch that were compared with a value and not chosen. -/
inductive Passed (settings : Settings) (evaluate : Node → Running Value) (value : Value) :
    List Node → Machine → Machine → Prop
  | nil {m : Machine} : Passed settings evaluate value [] m m
  | cons {arm node : Node} {arms : List Node} {m m₁ m₂ : Machine} :
      arm.valuePart = .tree node → meets settings evaluate value node m = (.ok false, m₁) →
      Passed settings evaluate value arms m₁ m₂ →
      Passed settings evaluate value (arm :: arms) m m₂

section Points

variable {δ : Type} (settings : Settings) (k : Companion δ)

/-- A point that the run of another one meets next. -/
inductive Part : Point δ → Point δ → Prop
  | group {steps calls : Nat} {e : Node} {m : Machine} {d : δ} :
      Part ⟨.expression, steps + 1, calls, .group e, m, d⟩ ⟨.expression, steps, calls, e, m, d⟩
  | left {steps calls : Nat} {operator : Name} {l r : Node} {m : Machine} {d : δ} :
      Part ⟨.expression, steps + 1, calls, .binary operator l r, m, d⟩
        ⟨.expression, steps, calls, l, m, d⟩
  | right {steps calls : Nat} {operator : Name} {l r : Node} {a : Value} {m m₁ : Machine}
      {d : δ} :
      evaluate settings steps calls l m = (.ok a, m₁) →
      (operator.text = "&&" → a = .boolean true) → (operator.text = "||" → a = .boolean false) →
      Part ⟨.expression, steps + 1, calls, .binary operator l r, m, d⟩
        ⟨.expression, steps, calls, r, m₁, d⟩
  | offset {steps calls : Nat} {name : Name} {offset : Node} {v : Variable} {r : Nat}
      {m : Machine} {d : δ} :
      offset.isAbsent = false → lookupVariable name m = (.ok v, m) → v.value = .list r →
      Part ⟨.expression, steps + 1, calls, .access name offset, m, d⟩
        ⟨.expression, steps, calls, offset, m, d⟩
  | argument {steps calls : Nat} {name : Name} {before behind : List Node} {e : Node}
      {values : List Value} {m m₁ : Machine} {d : δ} :
      evaluateAll (evaluate settings steps calls) before m = (.ok values, m₁) →
      Part ⟨.expression, steps + 1, calls, .call name (before ++ e :: behind), m, d⟩
        ⟨.expression, steps, calls, e, m₁, d⟩
  | element {steps calls : Nat} {before behind : List Node} {e : Node} {values : List Value}
      {m m₁ : Machine} {d : δ} :
      evaluateAll (evaluate settings steps calls) before m = (.ok values, m₁) →
      Part ⟨.expression, steps + 1, calls, .list (before ++ e :: behind), m, d⟩
        ⟨.expression, steps, calls, e, m₁, d⟩
  | body {steps calls : Nat} {name : Name} {arguments before behind : List Node} {s : Node}
      {values : List Value} {f : Function} {parameters : List Name} {m m₁ m₂ m₃ m₄ : Machine}
      {d d' : δ} :
      evaluateAll (evaluate settings steps (calls + 1)) arguments m = (.ok values, m₁) →
      lookupFunction name values.length m₁ = (.ok f, m₁) →
      f.action = .declared parameters (before ++ s :: behind) →
      note settings 1 ("call " ++ ScopeFault.signature name.text values.length) m₁ =
        (.ok (), m₂) →
      bindParameters parameters values m₂.enter = (.ok (), m₃) →
      executeAll (execute settings steps calls) before m₃ = (.ok .finished, m₄) →
      k.call f d d' →
      Part ⟨.expression, steps + 1, calls + 1, .call name arguments, m, d⟩
        ⟨.statement, steps, calls, s, m₄, k.afterAll before d'⟩
  | initial {steps calls : Nat} {name typeName : Name} {isMutable : Bool} {e : Node}
      {m : Machine} {d : δ} :
      e.isAbsent = false →
      Part ⟨.statement, steps + 1, calls, .global name typeName isMutable e, m, d⟩
        ⟨.expression, steps, calls, e, m, d⟩
  | declared {steps calls : Nat} {name typeName : Name} {e : Node} {m : Machine} {d : δ} :
      e.isAbsent = false →
      Part ⟨.statement, steps + 1, calls, .declaration name typeName e, m, d⟩
        ⟨.expression, steps, calls, e, m, d⟩
  | evaluated {steps calls : Nat} {e : Node} {m : Machine} {d : δ} :
      Part ⟨.statement, steps + 1, calls, .evaluation e, m, d⟩
        ⟨.expression, steps, calls, e, m, d⟩
  | returned {steps calls : Nat} {e : Node} {m : Machine} {d : δ} :
      e.isAbsent = false →
      Part ⟨.statement, steps + 1, calls, .returning e, m, d⟩
        ⟨.expression, steps, calls, e, m, d⟩
  | assigned {steps calls : Nat} {target e : Node} {m : Machine} {d : δ} :
      Part ⟨.statement, steps + 1, calls, .assignment target e, m, d⟩
        ⟨.expression, steps, calls, e, m, d⟩
  | targetOffset {steps calls : Nat} {name : Name} {offset e : Node} {value : Value}
      {v : Variable} {r : Nat} {m m₁ : Machine} {d : δ} :
      evaluate settings steps calls e m = (.ok value, m₁) → offset.isAbsent = false →
      lookupVariable name m₁ = (.ok v, m₁) → v.value = .list r →
      Part ⟨.statement, steps + 1, calls, .assignment (.access name offset) e, m, d⟩
        ⟨.expression, steps, calls, offset, m₁, d⟩
  | condition {steps calls : Nat} {c : Node} {thenBody elseBody : List Node} {m : Machine}
      {d : δ} :
      Part ⟨.statement, steps + 1, calls, .conditional c thenBody elseBody, m, d⟩
        ⟨.expression, steps, calls, c, m, d⟩
  | branch {steps calls : Nat} {c s : Node} {thenBody elseBody before behind : List Node}
      {b : Bool} {m m₁ m₂ m₃ : Machine} {d : δ} :
      evaluate settings steps calls c m = (.ok (.boolean b), m₁) →
      note settings 3 ("if condition -> " ++ truthText b) m₁ = (.ok (), m₂) →
      (if b then thenBody else elseBody) = before ++ s :: behind →
      executeAll (execute settings steps calls) before m₂.enter = (.ok .finished, m₃) →
      Part ⟨.statement, steps + 1, calls, .conditional c thenBody elseBody, m, d⟩
        ⟨.statement, steps, calls, s, m₃, k.afterAll before (k.enter d)⟩
  | repeated {steps calls : Nat} {c : Node} {body : List Node} {m : Machine} {d : δ} :
      Part ⟨.statement, steps + 1, calls, .loop c body, m, d⟩
        ⟨.expression, steps, calls, c, m, d⟩
  | iteration {steps calls : Nat} {c s : Node} {before behind : List Node}
      {m m₁ m₂ : Machine} {d : δ} :
      evaluate settings steps calls c m = (.ok (.boolean true), m₁) →
      executeAll (execute settings steps calls) before m₁.enter = (.ok .finished, m₂) →
      Part ⟨.statement, steps + 1, calls, .loop c (before ++ s :: behind), m, d⟩
        ⟨.statement, steps, calls, s, m₂, k.afterAll before (k.enter d)⟩
  | again {steps calls : Nat} {c : Node} {body : List Node} {m m₁ m₂ : Machine} {d : δ} :
      evaluate settings steps calls c m = (.ok (.boolean true), m₁) →
      inScope (executeAll (execute settings steps calls) body) m₁ = (.ok .finished, m₂) →
      Part ⟨.statement, steps + 1, calls, .loop c body, m, d⟩
        ⟨.statement, steps, calls, .loop c body, m₂, d⟩
  | subject {steps calls : Nat} {c : Node} {arms : List Node} {m : Machine} {d : δ} :
      Part ⟨.statement, steps + 1, calls, .switch c arms, m, d⟩
        ⟨.expression, steps, calls, c, m.enter, d⟩
  | compared {steps calls : Nat} {c e arm : Node} {before behind : List Node}
      {value : Value} {m m₁ m₂ m₃ : Machine} {d : δ} :
      evaluate settings steps calls c m.enter = (.ok value, m₁) →
      bindVariable switchName true value m₁ = (.ok (), m₂) →
      Passed settings (evaluate settings steps calls) value before m₂ m₃ →
      arm.valuePart = .tree e → e.isAbsent = false →
      Part ⟨.statement, steps + 1, calls, .switch c (before ++ arm :: behind), m, d⟩
        ⟨.expression, steps, calls, e, m₃, d⟩
  | chosen {steps calls position : Nat} {c e arm : Node} {before behind : List Node}
      {value : Value} {m m₁ m₂ m₃ m₄ m₅ : Machine} {d : δ} :
      evaluate settings steps calls c m.enter = (.ok value, m₁) →
      bindVariable switchName true value m₁ = (.ok (), m₂) →
      Passed settings (evaluate settings steps calls) value before m₂ m₃ →
      arm.valuePart = .tree e →
      meets settings (evaluate settings steps calls) value e m₃ = (.ok true, m₄) →
      position = before.length →
      note settings 3 ("switch selected case " ++ Text.natText position) m₄ = (.ok (), m₅) →
      Part ⟨.statement, steps + 1, calls, .switch c (before ++ arm :: behind), m, d⟩
        ⟨.statement, steps, calls, arm, m₅, d⟩
  | armBody {steps calls : Nat} {e s : Node} {before behind : List Node} {m m₁ : Machine}
      {d : δ} :
      executeAll (execute settings steps calls) before m.enter = (.ok .finished, m₁) →
      Part ⟨.statement, steps + 1, calls, .arm e (before ++ s :: behind), m, d⟩
        ⟨.statement, steps, calls, s, m₁, k.afterAll before (k.enter d)⟩

/-- A point that the run of a program starts with: a declaration, or a statement of `main`. -/
inductive Starts (steps : Nat) (program : Node) (m : Machine) (d : δ) : Point δ → Prop
  | global {before behind functions : List Node} {node : Node} {m₁ : Machine} :
      program = .source (before ++ node :: behind) functions →
      executeEach settings steps before m = (.ok (), m₁) →
      Starts steps program m d
        ⟨.statement, steps, settings.calls, node, m₁, k.afterAll before d⟩
  | function {globals before behind : List Node} {node : Node} {m₁ m₂ : Machine} :
      program = .source globals (before ++ node :: behind) →
      executeEach settings steps globals m = (.ok (), m₁) →
      executeEach settings steps before m₁ = (.ok (), m₂) →
      Starts steps program m d
        ⟨.statement, steps, settings.calls, node, m₂, k.afterAll (globals ++ before) d⟩
  | main {calls : Nat} {globals functions before behind : List Node} {s : Node} {f : Function}
      {parameters : List Name} {m₁ m₂ m₃ m₄ m₅ : Machine} {d' : δ} :
      program = .source globals functions →
      executeEach settings steps globals m = (.ok (), m₁) →
      executeEach settings steps functions m₁ = (.ok (), m₂) →
      mainFunction m₂ = (.ok f, m₂) → f.action = .declared parameters (before ++ s :: behind) →
      note settings 1 "run: main" m₂ = (.ok (), m₃) → settings.calls = calls + 1 →
      bindParameters parameters [] m₃.enter = (.ok (), m₄) →
      executeAll (execute settings steps calls) before m₄ = (.ok .finished, m₅) →
      k.call f (k.afterAll (globals ++ functions) d) d' →
      Starts steps program m d ⟨.statement, steps, calls, s, m₅, k.afterAll before d'⟩

/-- A point that the run of a program reaches. -/
def Reached (steps : Nat) (program : Node) (m : Machine) (d : δ) (p : Point δ) : Prop :=
  ∃ p₀, Starts settings k steps program m d p₀ ∧ Relation.ReflTransGen (Part settings k) p₀ p

variable {settings k}

/-- What every start has and every part inherits holds at all points that are reached. -/
theorem Reached.induction {steps : Nat} {program : Node} {m : Machine} {d : δ}
    {holds : Point δ → Prop} {p : Point δ}
    (hstarts : ∀ p, Starts settings k steps program m d p → holds p)
    (hpart : ∀ p q, Part settings k p q → holds p → holds q)
    (hp : Reached settings k steps program m d p) : holds p := by
  obtain ⟨p₀, hp₀, hpath⟩ := hp
  induction hpath with
  | refl => exact hstarts p₀ hp₀
  | tail _ hq ih => exact hpart _ _ hq ih

variable (settings)

/-- How the run of a point ends, if it does not fail: with a value and a machine. -/
inductive Point.Ends : Point δ → Value → Machine → Prop
  | expression {steps calls : Nat} {node : Node} {m m' : Machine} {d : δ} {v : Value} :
      evaluate settings steps calls node m = (.ok v, m') →
      Ends ⟨.expression, steps, calls, node, m, d⟩ v m'
  | statement {steps calls : Nat} {node : Node} {m m' : Machine} {d : δ}
      {ending : Completion} :
      execute settings steps calls node m = (.ok ending, m') →
      Ends ⟨.statement, steps, calls, node, m, d⟩ ending.value m'

/-- The run of a point fails. -/
inductive Point.Fails : Point δ → RunFailure → Prop
  | expression {steps calls : Nat} {node : Node} {m m' : Machine} {d : δ} {e : RunFailure} :
      evaluate settings steps calls node m = (.error e, m') →
      Fails ⟨.expression, steps, calls, node, m, d⟩ e
  | statement {steps calls : Nat} {node : Node} {m m' : Machine} {d : δ} {e : RunFailure} :
      execute settings steps calls node m = (.error e, m') →
      Fails ⟨.statement, steps, calls, node, m, d⟩ e

end Points

end Running
end BlockScript
