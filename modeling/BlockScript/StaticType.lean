/-!
# Static types

The closed set of types that declarations may name and that the checker gives to
expressions.  Every type has the name that source text uses and the name under which
it is exported to a target language.
-/

namespace BlockScript

/-- A static type. -/
inductive StaticType
  | any | nil | boolean | integer | decimal | character | string | comparable
deriving DecidableEq, Inhabited

namespace StaticType

/-- All types. -/
def all : List StaticType :=
  [any, nil, boolean, integer, decimal, character, string, comparable]

/-- The name of the type in source text. -/
def name : StaticType → String
  | any => "Any"
  | nil => "Nil"
  | boolean => "Boolean"
  | integer => "Integer"
  | decimal => "Decimal"
  | character => "Character"
  | string => "String"
  | comparable => "Comparable"

/-- The name of the type in the target language. -/
def exportedName : StaticType → String
  | any => "Object"
  | nil => "Void"
  | boolean => "boolean"
  | integer => "int"
  | decimal => "double"
  | character => "char"
  | string => "String"
  | comparable => "Comparable"

/-- The type of a given name. -/
def ofName? (s : String) : Option StaticType := all.find? fun t => t.name == s

/-- The types whose values are ordered among themselves in source programs. -/
def isOrdered : StaticType → Bool
  | integer | decimal | character | string => true
  | _ => false

/-- Whether a value of type `source` may be stored where `target` is declared: types agree,
or `Any` is declared, or `Comparable` is declared and the source is ordered.  An expression
without a type fits only another one without, or `Any`. -/
def accepts (target source : Option StaticType) : Bool :=
  source == target || target == some any
    || (target == some comparable && (source.map isOrdered).getD false)

/-- Every type is found under its name. -/
theorem ofName?_name (t : StaticType) : ofName? t.name = some t := by
  cases t <;> decide

end StaticType
end BlockScript
