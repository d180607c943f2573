import BlockScript.Json.Comparison
import BlockScript.StaticType

/-!
# Scalars

The values that are no lists.  Literals in a tree are scalars, and running a program
adds lists to them.

A character and a string of one character are different values.  A character is one
code point in every program read from source text; trees that are read may put any value
into it, and into a string literal even one that the language does not have.
-/

namespace BlockScript

/-- A value that is no list. -/
inductive Scalar
  | nil
  | boolean (value : Bool)
  | integer (value : Int)
  | decimal (value : Decimal)
  /-- A character, which holds a text unless a tree gives it something else. -/
  | character (value : Json)
  | string (text : String)
  /-- A value that the language does not have, and the place where it stands in its tree.
  An array is a list when it is evaluated, and the same list whenever it is. -/
  | foreign (value : Json) (place : List Nat)
deriving DecidableEq, Inhabited

/-- Why a value has no text. -/
inductive TextFault
  /-- The walk through a list goes deeper than its bound. -/
  | endless
  /-- An integer has more digits than are converted. -/
  | numeral
  /-- A character holds no text. -/
  | noText
deriving DecidableEq, Inhabited

/-- Why two values have no order. -/
inductive OrderFault
  /-- One of them is an undefined number. -/
  | undefined
  /-- They are not made to be compared. -/
  | unordered
deriving DecidableEq, Inhabited

namespace Scalar

/-- The value that stands in a place: a text, a truth value or an integer is what it is,
and any other value is foreign. -/
def ofJson (place : List Nat) : Json → Scalar
  | .string text => string text
  | .boolean b => boolean b
  | .integer n => integer n
  | value => foreign value place

/-- The character of a text. -/
def ofCharacter (text : String) : Scalar := character (.string text)

/-- The static type of a value; a foreign one has none of its own. -/
def type : Scalar → StaticType
  | nil => .nil
  | boolean _ => .boolean
  | integer _ => .integer
  | decimal _ => .decimal
  | character _ => .character
  | string _ => .string
  | foreign .. => .any

/-- The text of a value. -/
def text : Scalar → Except TextFault String
  | nil => .ok "nil"
  | boolean value => .ok (if value then "true" else "false")
  | integer value =>
      match Text.intText? value with
      | some numeral => .ok numeral
      | none => .error .numeral
  | decimal value => .ok value.toText
  | character (.string text) => .ok text
  | character _ => .error .noText
  | string text => .ok text
  | foreign value _ => .ok value.describe

/-- Whether a value is a number that refuses to be compared. -/
def signals : Scalar → Bool
  | decimal d => d.signals
  | _ => false

/-- Whether two values refuse to be compared. -/
def refuse : Scalar → Scalar → Bool
  | decimal a, decimal b => a.signals || b.signals
  | _, _ => false

/-- Equality of values: of the same kind, and numeric for decimals. -/
def equal : Scalar → Scalar → Bool
  | nil, nil => true
  | boolean a, boolean b => a == b
  | integer a, integer b => a == b
  | decimal a, decimal b => a.equal b
  | character a, character b => a.equal b
  | string a, string b => a == b
  | foreign (.real a) _, foreign (.real b) _ => a.equal b
  | foreign a _, foreign b _ => a.equal b
  | _, _ => false

/-- Whether two values are ordered: of the same kind, and not nil. -/
def comparable : Scalar → Scalar → Bool
  | boolean _, boolean _ => true
  | integer _, integer _ => true
  | decimal _, decimal _ => true
  | character _, character _ => true
  | string _, string _ => true
  | _, _ => false

/-- An order that may be missing. -/
def orderOr (fault : OrderFault) : Option Ordering → Except OrderFault Ordering
  | some order => .ok order
  | none => .error fault

/-- The order of two values. -/
def order : Scalar → Scalar → Except OrderFault Ordering
  | boolean a, boolean b => .ok (compare a.toNat b.toNat)
  | integer a, integer b => .ok (compare a b)
  | decimal a, decimal b => orderOr .undefined (a.order? b)
  | character a, character b => orderOr .unordered (a.order? b)
  | string a, string b => .ok (Text.compareTexts a b)
  | _, _ => .error .unordered

end Scalar
end BlockScript
