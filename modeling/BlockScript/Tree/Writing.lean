import BlockScript.Json.Basic
import BlockScript.Tree.Basic

/-!
# Writing trees

Every node is an object that names its type first and gives all its fields in a fixed
order; absent nodes and missing type names are null.  A literal keeps its kind, and a
decimal is written as text, so that no digit is lost.

A value that the language does not have is not written to files.  `isWritable` says that
a tree has none; in any other tree such a value takes the place that it was read from.
-/

namespace BlockScript
namespace Tree

/-- A literal as a value. -/
def scalarToJson : Scalar → Json
  | .nil => .object [("kind", .string "nil")]
  | .boolean value => .object [("kind", .string "boolean"), ("value", .boolean value)]
  | .integer value => .object [("kind", .string "integer"), ("value", .integer value)]
  | .decimal value => .object [("kind", .string "decimal"), ("value", .string value.toText)]
  | .character value => .object [("kind", .string "character"), ("value", value)]
  | .string text => .object [("kind", .string "string"), ("value", .string text)]
  | .foreign value _ => .object [("kind", .string "string"), ("value", value)]

/-- A row of names. -/
def names (row : List Name) : Json := .array (row.map Name.value)

/-- An object of the given type. -/
def typed (type : String) (fields : List (String × Json)) : Json :=
  .object (("type", .string type) :: fields)

mutual

/-- A tree as a value. -/
def toJson : Node → Json
  | .absent => .null
  | .source globals functions =>
      typed "Source" [("globals", .array (rowToJson globals)),
        ("functions", .array (rowToJson functions))]
  | .global name typeName isMutable value =>
      typed "GlobalDecl" [("name", name.value), ("type_name", typeName.value),
        ("mutable", .boolean isMutable), ("value", toJson value)]
  | .function name parameters parameterTypes returnType body =>
      typed "FuncDecl" [("name", name.value), ("params", names parameters),
        ("param_types", names parameterTypes), ("return_type", returnType.value),
        ("body", .array (rowToJson body))]
  | .evaluation expression => typed "ExprStmt" [("expr", toJson expression)]
  | .declaration name typeName value =>
      typed "VarDecl" [("name", name.value), ("type_name", typeName.value),
        ("value", toJson value)]
  | .assignment target value =>
      typed "Assign" [("target", toJson target), ("value", toJson value)]
  | .conditional condition thenBody elseBody =>
      typed "IfStmt" [("condition", toJson condition),
        ("then_body", .array (rowToJson thenBody)), ("else_body", .array (rowToJson elseBody))]
  | .arm value body =>
      typed "CaseStmt" [("value", toJson value), ("body", .array (rowToJson body))]
  | .switch condition arms =>
      typed "SwitchStmt" [("condition", toJson condition), ("cases", .array (rowToJson arms))]
  | .loop condition body =>
      typed "WhileStmt" [("condition", toJson condition), ("body", .array (rowToJson body))]
  | .returning value => typed "ReturnStmt" [("value", toJson value)]
  | .literal value => typed "Literal" [("value", scalarToJson value)]
  | .group expression => typed "Group" [("expr", toJson expression)]
  | .binary operator left right =>
      typed "BinaryOp" [("op", operator.value), ("left", toJson left), ("right", toJson right)]
  | .access name offset =>
      typed "Access" [("name", name.value), ("offset", toJson offset)]
  | .call name arguments =>
      typed "Call" [("name", name.value), ("args", .array (rowToJson arguments))]
  | .list elements => typed "ListLit" [("elements", .array (rowToJson elements))]

/-- The trees of a row as values. -/
def rowToJson : List Node → List Json
  | [] => []
  | node :: nodes => toJson node :: rowToJson nodes

end

/-- Whether files have the kind of a literal. -/
def isWritableScalar : Scalar → Bool
  | .foreign .. => false
  | _ => true

mutual

/-- Whether files have the kinds of all literals of a tree. -/
def isWritable : Node → Bool
  | .absent => true
  | .source globals functions => areWritable globals && areWritable functions
  | .global _ _ _ value => isWritable value
  | .function _ _ _ _ body => areWritable body
  | .evaluation expression => isWritable expression
  | .declaration _ _ value => isWritable value
  | .assignment target value => isWritable target && isWritable value
  | .conditional condition thenBody elseBody =>
      isWritable condition && areWritable thenBody && areWritable elseBody
  | .arm value body => isWritable value && areWritable body
  | .switch condition arms => isWritable condition && areWritable arms
  | .loop condition body => isWritable condition && areWritable body
  | .returning value => isWritable value
  | .literal value => isWritableScalar value
  | .group expression => isWritable expression
  | .binary _ left right => isWritable left && isWritable right
  | .access _ offset => isWritable offset
  | .call _ arguments => areWritable arguments
  | .list elements => areWritable elements

/-- Whether files have the kinds of all literals of a row of trees. -/
def areWritable : List Node → Bool
  | [] => true
  | node :: nodes => isWritable node && areWritable nodes

end

end Tree
end BlockScript
