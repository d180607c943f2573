import BlockScript.Proofs.Decimal.Range
import BlockScript.Proofs.Scope.Names
import BlockScript.Scope.Chain
import BlockScript.Typing.Annotation

/-!
# Derivations of the typing rules

The rules of the language as relations, one for each kind of part of a program.  A name means
what the nearest scope that binds it binds it to, and scopes grow as declarations are passed.
Nothing here checks one thing before another: the relations say which programs have a
derivation, not how one is found.

Every relation has the records of the derivation as its last part: for each expression its
type, variable or function, and for each declaration the variable or function that it makes,
in the order of the tree.
-/

namespace BlockScript
namespace Typing
namespace Derivation

section Names

/-- What the nearest scope that binds something suitable binds. -/
inductive Nearest {α : Type} (bindings : Scope → List α) (suits : α → Bool) :
    List Scope → α → Prop
  | here {s : Scope} {outer : List Scope} {a : α} :
      a ∈ bindings s → suits a = true → Nearest bindings suits (s :: outer) a
  | around {s : Scope} {outer : List Scope} {a : α} :
      (∀ b ∈ bindings s, suits b = false) → Nearest bindings suits outer a →
      Nearest bindings suits (s :: outer) a

/-- The variable that a name means. -/
def VariableOf (c : Chain) (name : Name) : Variable → Prop :=
  Nearest Scope.vars (fun v => v.name.same name) c.toList

/-- The function that a name means with a number of arguments. -/
def FunctionOf (c : Chain) (name : Name) (arity : Nat) : Function → Prop :=
  Nearest Scope.functions (fun f => f.answers name arity) c.toList

/-- A variable is declared, whose name is new in the current scope. -/
structure Declares (c : Chain) (v : Variable) (c' : Chain) : Prop where
  isNew : ∀ w ∈ c.current.vars, w.name.same v.name = false
  eq : c' = ⟨{ c.current with vars := v :: c.current.vars }, c.outer⟩

/-- A function is declared, of which the current scope has none of its name and number of
parameters. -/
structure DeclaresFunction (c : Chain) (f : Function) (c' : Chain) : Prop where
  isNew : ∀ g ∈ c.current.functions, g.answers f.name f.arity = false
  eq : c' = ⟨{ c.current with functions := f :: c.current.functions }, c.outer⟩

/-- The type that a type name gives, or another one where it is left out. -/
inductive TypeName (otherwise : StaticType) : Name → StaticType → Prop
  | missing : TypeName otherwise .missing otherwise
  | named {t : StaticType} : TypeName otherwise (.ofText t.name) t

end Names

section Types

/-- A value of one type may be stored as another. -/
inductive Assignable : (target source : StaticType) → Prop
  | same {t : StaticType} : Assignable t t
  | any {s : StaticType} : Assignable .any s
  | comparable {s : StaticType} :
      s ∈ [.integer, .decimal, .character, .string] → Assignable .comparable s

/-- The type of a literal. -/
inductive LiteralOf : Scalar → StaticType → Prop
  | nil : LiteralOf .nil .nil
  | boolean {b : Bool} : LiteralOf (.boolean b) .boolean
  | integer {n : Int} : -2 ^ 31 ≤ n → n < 2 ^ 31 → LiteralOf (.integer n) .integer
  | decimal {d : Scaled} : d.IsDouble → LiteralOf (.decimal (.finite d)) .decimal
  | character {text : String} : LiteralOf (.ofCharacter text) .character
  | string {text : String} : LiteralOf (.string text) .string

/-- The type of an operator between operands of two types. -/
inductive Operates : (operator : String) → (left right type : StaticType) → Prop
  | logical {operator : String} :
      operator ∈ ["&&", "||"] → Operates operator .boolean .boolean .boolean
  | textLeft {r : StaticType} : Operates "+" .string r .string
  | textRight {l : StaticType} : Operates "+" l .string .string
  | numbers {operator : String} {t : StaticType} :
      operator ∈ ["+", "-", "*", "/"] → t ∈ [.integer, .decimal] → Operates operator t t t
  | power : Operates "^" .integer .integer .integer
  | comparison {operator : String} {t : StaticType} :
      operator ∈ ["<", ">", "==", "!="] → Operates operator t t .boolean

end Types

section Expressions

variable (c : Chain)

mutual

/-- The type of an expression.  Only a list looks at the type that is expected, which is then
the type of its elements. -/
inductive Expression : Option StaticType → Node → StaticType → List Annotation → Prop
  | literal {expected : Option StaticType} {s : Scalar} {t : StaticType} : LiteralOf s t →
      Expression expected (.literal s) t [⟨.literal s, .expression (some t)⟩]
  | group {expected : Option StaticType} {operator : Name} {left right : Node} {t : StaticType}
      {as : List Annotation} : Expression none (.binary operator left right) t as →
      Expression expected (.group (.binary operator left right)) t
        (⟨.group (.binary operator left right), .expression (some t)⟩ :: as)
  | binary {expected : Option StaticType} {operator : Name} {left right : Node}
      {l r t : StaticType} {as bs : List Annotation} :
      Expression none left l as → Expression none right r bs → Operates operator.text l r t →
      Expression expected (.binary operator left right) t
        (⟨.binary operator left right, .expression (some t)⟩ :: (as ++ bs))
  | variable {expected : Option StaticType} {name : Name} {v : Variable} {t : StaticType} :
      VariableOf c name v → v.type = some t →
      Expression expected (.access name .absent) t [⟨.access name .absent, .access v⟩]
  | item {expected : Option StaticType} {name : Name} {offset : Node} {v : Variable}
      {t : StaticType} {as : List Annotation} :
      Expression none offset .integer as → VariableOf c name v → v.type = some t →
      Expression expected (.access name offset) t (⟨.access name offset, .access v⟩ :: as)
  | call {expected : Option StaticType} {name : Name} {arguments : List Node} {f : Function}
      {as : List Annotation} :
      FunctionOf c name arguments.length f → Arguments arguments f.parameterTypes as →
      Expression expected (.call name arguments) f.returnType
        (⟨.call name arguments, .call f⟩ :: as)
  | listOf {elements : List Node} {t : StaticType} {as : List Annotation} :
      elements ≠ [] → Elements t elements as →
      Expression (some t) (.list elements) t (⟨.list elements, .expression (some t)⟩ :: as)
  | list {first : Node} {others : List Node} {t : StaticType} {as bs : List Annotation} :
      Expression none first t as → Elements t others bs →
      Expression none (.list (first :: others)) t
        (⟨.list (first :: others), .expression (some t)⟩ :: (as ++ bs))

/-- The arguments of a call, each of which may be stored as its parameter. -/
inductive Arguments : List Node → List StaticType → List Annotation → Prop
  | nil : Arguments [] [] []
  | cons {argument : Node} {arguments : List Node} {parameter s : StaticType}
      {parameters : List StaticType} {as bs : List Annotation} :
      Expression none argument s as → Assignable parameter s →
      Arguments arguments parameters bs →
      Arguments (argument :: arguments) (parameter :: parameters) (as ++ bs)

/-- The elements of a list, which have its type unless it is that of any value. -/
inductive Elements : StaticType → List Node → List Annotation → Prop
  | nil {t : StaticType} : Elements t [] []
  | cons {t s : StaticType} {element : Node} {elements : List Node} {as bs : List Annotation} :
      Expression none element s as → t = .any ∨ s = t → Elements t elements bs →
      Elements t (element :: elements) (as ++ bs)

end

/-- The type of a declaration: the one that it names, or that of its value. -/
inductive Declared : Name → Node → StaticType → List Annotation → Prop
  | inferred {value : Node} {t : StaticType} {as : List Annotation} :
      Expression c none value t as → Declared .missing value t as
  | bare {t : StaticType} : Declared (.ofText t.name) .absent t []
  | given {value : Node} {t s : StaticType} {as : List Annotation} :
      Expression c (some t) value s as → Assignable t s → Declared (.ofText t.name) value t as

end Expressions

section Statements

variable (result : StaticType)

mutual

/-- A statement of a function that returns a type, with the scopes in front of it and
behind it. -/
inductive Statement : Chain → Node → Chain → List Annotation → Prop
  | declaration {c c' : Chain} {name typeName : Name} {value : Node} {t : StaticType}
      {as : List Annotation} :
      Declared c typeName value t as → Declares c ⟨name, name, some t, true, .nil⟩ c' →
      Statement c (.declaration name typeName value) c'
        (⟨.declaration name typeName value, .declaration ⟨name, name, some t, true, .nil⟩⟩ :: as)
  | evaluation {c : Chain} {e : Node} {t : StaticType} {as : List Annotation} :
      Expression c none e t as → Statement c (.evaluation e) c as
  | assignment {c : Chain} {name : Name} {offset value : Node} {v : Variable}
      {t s : StaticType} {as bs : List Annotation} :
      Expression c none (.access name offset) t as → VariableOf c name v → v.isMutable = true →
      Expression c (some t) value s bs → Assignable t s →
      Statement c (.assignment (.access name offset) value) c (as ++ bs)
  | conditional {c : Chain} {test : Node} {thenBody elseBody : List Node}
      {as bs ds : List Annotation} :
      Expression c none test .boolean as → thenBody ≠ [] → Block c.push thenBody bs →
      Block c.push elseBody ds →
      Statement c (.conditional test thenBody elseBody) c (as ++ bs ++ ds)
  | loop {c : Chain} {test : Node} {body : List Node} {as bs : List Annotation} :
      Expression c none test .boolean as → Block c.push body bs →
      Statement c (.loop test body) c (as ++ bs)
  | switch {c : Chain} {test : Node} {t : StaticType} {arms : List Node}
      {as bs : List Annotation} :
      Expression c none test t as → Arms c t arms bs → Statement c (.switch test arms) c (as ++ bs)
  | plainReturn {c : Chain} : result = .nil → Statement c (.returning .absent) c []
  | returning {c : Chain} {value : Node} {as : List Annotation} :
      Expression c none value result as → Statement c (.returning value) c as

/-- The statements of a body from some scopes on. -/
inductive Block : Chain → List Node → List Annotation → Prop
  | nil {c : Chain} : Block c [] []
  | cons {c c' : Chain} {s : Node} {ss : List Node} {as bs : List Annotation} :
      Statement c s c' as → Block c' ss bs → Block c (s :: ss) (as ++ bs)

/-- The cases of a switch over values of a type: each but the last one has a literal of that
type, and the last one has no value. -/
inductive Arms : Chain → StaticType → List Node → List Annotation → Prop
  | last {c : Chain} {t : StaticType} {body : List Node} {as : List Annotation} :
      Block c.push body as → Arms c t [.arm .absent body] as
  | cons {c : Chain} {t : StaticType} {s : Scalar} {body arms : List Node}
      {as bs : List Annotation} :
      LiteralOf s t → Block c.push body as → Arms c t arms bs →
      Arms c t (.arm (.literal s) body :: arms)
        (⟨.literal s, .expression (some t)⟩ :: (as ++ bs))

end

end Statements

section Programs

/-- A global. -/
inductive Global : Chain → Node → Chain → List Annotation → Prop
  | intro {c c' : Chain} {name typeName : Name} {isMutable : Bool} {value : Node}
      {t : StaticType} {as : List Annotation} :
      Declared c typeName value t as → Declares c ⟨name, name, some t, isMutable, .nil⟩ c' →
      Global c (.global name typeName isMutable value) c'
        (⟨.global name typeName isMutable value,
          .declaration ⟨name, name, some t, isMutable, .nil⟩⟩ :: as)

/-- The parameters of a function, declared one after the other. -/
inductive Parameters : Chain → List Name → List StaticType → Chain → Prop
  | nil {c : Chain} : Parameters c [] [] c
  | cons {c c₁ c' : Chain} {name : Name} {names : List Name} {t : StaticType}
      {ts : List StaticType} :
      Declares c ⟨name, name, some t, true, .nil⟩ c₁ → Parameters c₁ names ts c' →
      Parameters c (name :: names) (t :: ts) c'

/-- A function.  It is declared in front of its body, which has a scope of its own. -/
inductive FunctionDeclaration : Chain → Node → Chain → List Annotation → Prop
  | intro {c c' entry : Chain} {name returnType : Name} {parameters parameterTypes : List Name}
      {body : List Node} {ts : List StaticType} {t : StaticType} {as : List Annotation} :
      List.Forall₂ (TypeName .any) parameterTypes ts → TypeName .nil returnType t →
      DeclaresFunction c ⟨name, name, ts, t, .declared parameters body⟩ c' →
      Parameters c'.push parameters ts entry → Block t entry body as →
      FunctionDeclaration c (.function name parameters parameterTypes returnType body) c'
        (⟨.function name parameters parameterTypes returnType body,
          .function ⟨name, name, ts, t, .declared parameters body⟩⟩ :: as)

/-- Declarations one after the other. -/
inductive Row (R : Chain → Node → Chain → List Annotation → Prop) :
    Chain → List Node → Chain → List Annotation → Prop
  | nil {c : Chain} : Row R c [] c []
  | cons {c c₁ c' : Chain} {node : Node} {nodes : List Node} {as bs : List Annotation} :
      R c node c₁ as → Row R c₁ nodes c' bs → Row R c (node :: nodes) c' (as ++ bs)

/-- The declaration of the function that a run starts with. -/
def IsMain (node : Node) : Prop :=
  ∃ parameterTypes body, node = .function "main" [] parameterTypes "Integer" body

/-- A program: its globals, then its functions, one of which is `main`. -/
inductive Program (surroundings : List Scope) : Node → List Annotation → Prop
  | intro {globals functions : List Node} {c c' : Chain} {as bs : List Annotation} :
      Row Global (.root surroundings) globals c as → Row FunctionDeclaration c functions c' bs →
      (∃ f ∈ functions, IsMain f) → Program surroundings (.source globals functions) (as ++ bs)

end Programs

end Derivation
end Typing
end BlockScript
