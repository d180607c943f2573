import BlockScript.Decimal.Shortest
import BlockScript.Text.Quoted

/-!
# JSON values

The members of an object keep their order.  A number without fraction and power of ten
is an integer of any size; any other one is a number of double precision, kept as the
decimal that it exactly is.

`same_iff` says that the comparison of two values member by member decides whether they
are the same.
-/

namespace BlockScript

/-- A JSON value. -/
inductive Json
  | null
  | boolean (value : Bool)
  | integer (value : Int)
  | real (value : Decimal)
  | string (text : String)
  | array (items : List Json)
  | object (members : List (String × Json))
deriving Inhabited

namespace Json

mutual

/-- Whether two values are the same. -/
def same : Json → Json → Bool
  | null, null => true
  | boolean a, boolean b => a == b
  | integer a, integer b => a == b
  | real a, real b => a == b
  | string a, string b => a == b
  | array as, array bs => sameItems as bs
  | object as, object bs => sameMembers as bs
  | _, _ => false

/-- Whether two rows of values are the same. -/
def sameItems : List Json → List Json → Bool
  | [], [] => true
  | a :: as, b :: bs => same a b && sameItems as bs
  | _, _ => false

/-- Whether two rows of members are the same. -/
def sameMembers : List (String × Json) → List (String × Json) → Bool
  | [], [] => true
  | (k, a) :: as, (l, b) :: bs => k == l && same a b && sameMembers as bs
  | _, _ => false

end

mutual

theorem same_iff : (a b : Json) → (same a b = true ↔ a = b)
  | null, b => by cases b <;> simp [same]
  | boolean _, b => by cases b <;> simp [same]
  | integer _, b => by cases b <;> simp [same]
  | real _, b => by cases b <;> simp [same]
  | string _, b => by cases b <;> simp [same]
  | array as, b => by cases b <;> simp [same, sameItems_iff as]
  | object as, b => by cases b <;> simp [same, sameMembers_iff as]

theorem sameItems_iff : (as bs : List Json) → (sameItems as bs = true ↔ as = bs)
  | [], bs => by cases bs <;> simp [sameItems]
  | a :: as, bs => by cases bs <;> simp [sameItems, same_iff a, sameItems_iff as]

theorem sameMembers_iff : (as bs : List (String × Json)) → (sameMembers as bs = true ↔ as = bs)
  | [], bs => by cases bs <;> simp [sameMembers]
  | (_, a) :: as, bs => by
      cases bs with
      | nil => simp [sameMembers]
      | cons b bs =>
        cases b
        simp [sameMembers, same_iff a, sameMembers_iff as, and_assoc]

end

instance : DecidableEq Json := fun a b => decidable_of_iff _ (same_iff a b)

/-- Whether a value counts as true: not null, false, zero or empty. -/
def isTruthy : Json → Bool
  | null => false
  | boolean value => value
  | integer value => value != 0
  | real value => !value.isZero
  | string text => text != ""
  | array items => !items.isEmpty
  | object members => !members.isEmpty

/-- Puts a separator between the texts of a row. -/
def joined (parts : List String) : String := ", ".intercalate parts

mutual

/-- A value as part of a message, texts in quotes. -/
def describeInside : Json → String
  | null => "None"
  | boolean value => if value then "True" else "False"
  | integer value => Text.intTextOfAnySize value
  | real value => value.doubleText
  | string text => Text.quoted text
  | array items => "[" ++ joined (describeItems items) ++ "]"
  | object members => "\x7b" ++ joined (describeMembers members) ++ "\x7d"

/-- The items of an array as parts of a message. -/
def describeItems : List Json → List String
  | [] => []
  | item :: items => describeInside item :: describeItems items

/-- The members of an object as parts of a message. -/
def describeMembers : List (String × Json) → List String
  | [] => []
  | (key, value) :: members =>
      (Text.quoted key ++ ": " ++ describeInside value) :: describeMembers members

end

/-- A value in a message: a text stands without quotes. -/
def describe : Json → String
  | string text => text
  | value => describeInside value

end Json
end BlockScript
