import BlockScript.Scope.Chain
import BlockScript.Typing.Annotation
import BlockScript.Typing.Operator

/-!
# Types of expressions

`typeOf` gives the type of an expression where the names of some scopes are known, and
the annotations of the expression and its parts.  Parts are typed from left to right and
the first broken rule counts.

An expected type matters to a list literal alone: it is then the type of the elements.
-/

namespace BlockScript
namespace Typing

/-- The type of an expression, and the annotations made on the way. -/
structure Typed where
  type : Option StaticType
  annotations : List Annotation
deriving Inhabited

/-- A binding that must be there. -/
def bound {α : Type} : Except ScopeFault α → Except CheckFailure α
  | .ok a => .ok a
  | .error fault => reject (.scope fault)

/-- Something that is found or bound under a name. -/
def boundUnder {α : Type} (name : Name) (binding : Except ScopeFault α) :
    Except CheckFailure α :=
  if name.isBindable then bound binding else .error .wrongShape

/-- Demands that an index is an integer. -/
def requireIndex (name : Name) (type : Option StaticType) : Except CheckFailure Unit :=
  if type = some .integer then .ok () else rejectNaming type (.indexType name.text)

mutual

/-- The type of an expression. -/
def typeOf (scopes : Chain) (expected : Option StaticType) : Node → Except CheckFailure Typed
  | .literal value => do
      let type ← literalType value
      return ⟨some type, [⟨.literal value, .expression (some type)⟩]⟩
  | .group inner => do
      if inner.isBinary then
        let found ← typeOf scopes none inner
        return ⟨found.type, ⟨.group inner, .expression found.type⟩ :: found.annotations⟩
      else reject .groupedExpression
  | .binary operator left right => do
      let l ← typeOf scopes none left
      let r ← typeOf scopes none right
      let type ← binaryType operator.text l.type r.type
      return ⟨type, ⟨.binary operator left right, .expression type⟩
        :: (l.annotations ++ r.annotations)⟩
  | .access name offset => do
      let found ← typeOfOffset scopes name offset
      let target ← boundUnder name (scopes.lookupVariable name)
      return ⟨target.type, ⟨.access name offset, .access target⟩ :: found⟩
  | .call name arguments => do
      let callee ← boundUnder name (scopes.lookupFunction name arguments.length)
      let found ← typeOfArguments scopes name.text arguments callee.parameterTypes
      return ⟨some callee.returnType, ⟨.call name arguments, .call callee⟩ :: found⟩
  | .list elements => do
      let found ← typeOfElements scopes expected elements
      return ⟨found.type, ⟨.list elements, .expression found.type⟩ :: found.annotations⟩
  | node => .error (.misplacedExpression node)

/-- The annotations of the offset of an access, if it has one. -/
def typeOfOffset (scopes : Chain) (name : Name) : Node → Except CheckFailure (List Annotation)
  | .absent => return []
  | offset => do
      let found ← typeOf scopes none offset
      requireIndex name found.type
      return found.annotations

/-- The annotations of the arguments of a call, each of which fits its parameter. -/
def typeOfArguments (scopes : Chain) (function : String) :
    List Node → List StaticType → Except CheckFailure (List Annotation)
  | argument :: arguments, parameterType :: parameterTypes => do
      let found ← typeOf scopes none argument
      requireArgument function (some parameterType) found.type
      let others ← typeOfArguments scopes function arguments parameterTypes
      return found.annotations ++ others
  | _, _ => return []

/-- The type of a list of elements. -/
def typeOfElements (scopes : Chain) (listType : Option StaticType) :
    List Node → Except CheckFailure Typed
  | [] => return ⟨listType, []⟩
  | element :: elements => do
      let found ← typeOf scopes none element
      let type ← withElement listType found.type
      let others ← typeOfElements scopes type elements
      return ⟨others.type, found.annotations ++ others.annotations⟩

end

end Typing
end BlockScript
