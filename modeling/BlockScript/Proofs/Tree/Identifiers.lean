import BlockScript.Tree.Basic

/-!
# The names in a tree

All names that a tree gives to variables, functions, parameters and types, wherever they
are declared or used.  A type that is left out has the missing name, which is no text.
-/

namespace BlockScript
namespace Node

mutual

/-- The names in a tree. -/
def identifiers : Node → List Name
  | absent => []
  | source globals functions => identifiersAll globals ++ identifiersAll functions
  | global name typeName _ value => name :: typeName :: identifiers value
  | function name parameters parameterTypes returnType body =>
      name :: returnType :: (parameters ++ parameterTypes ++ identifiersAll body)
  | evaluation expression => identifiers expression
  | declaration name typeName value => name :: typeName :: identifiers value
  | assignment target value => identifiers target ++ identifiers value
  | conditional condition thenBody elseBody =>
      identifiers condition ++ identifiersAll thenBody ++ identifiersAll elseBody
  | arm value body => identifiers value ++ identifiersAll body
  | switch condition arms => identifiers condition ++ identifiersAll arms
  | loop condition body => identifiers condition ++ identifiersAll body
  | returning value => identifiers value
  | literal _ => []
  | group expression => identifiers expression
  | binary _ left right => identifiers left ++ identifiers right
  | access name offset => name :: identifiers offset
  | call name arguments => name :: identifiersAll arguments
  | list elements => identifiersAll elements

/-- The names in a row of trees. -/
def identifiersAll : List Node → List Name
  | [] => []
  | node :: nodes => identifiers node ++ identifiersAll nodes

end

@[simp] theorem identifiersAll_append (as bs : List Node) :
    identifiersAll (as ++ bs) = identifiersAll as ++ identifiersAll bs := by
  induction as with
  | nil =>
      simp [identifiersAll]
  | cons a as ih =>
      simp [identifiersAll, ih]

/-- All names of a tree that are texts have a property. -/
def NamesSatisfy (P : String → Prop) (node : Node) : Prop :=
  ∀ s, Name.ofText s ∈ node.identifiers → P s

/-- All names of a row of trees that are texts have a property. -/
def AllNamesSatisfy (P : String → Prop) (nodes : List Node) : Prop :=
  ∀ s, Name.ofText s ∈ identifiersAll nodes → P s

end Node
end BlockScript
