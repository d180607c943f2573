import BlockScript.Json.Basic
import BlockScript.Text.InFiles

/-!
# Comparing JSON values

Two values are equal when they are the same up to the spelling of numbers and the order
of members: truth values count as the numbers zero and one, and numbers are compared as
numbers whatever their form.  An undefined number equals itself here.

Numbers are ordered, and texts by code points; arrays are ordered by their first items
that differ.  Other values have no order unless they are equal.
-/

namespace BlockScript
namespace Json

/-- The number that a value is, where it is one. -/
def number? : Json → Option Decimal
  | boolean b => some (.finite ⟨false, b.toNat, 0⟩)
  | integer n => some (.finite ⟨decide (n < 0), n.natAbs, 0⟩)
  | real d => some d
  | _ => none

/-- Whether a number is undefined. -/
def isUndefined : Decimal → Bool
  | .undefined .. => true
  | _ => false

/-- Equality of numbers, where an undefined one equals itself. -/
def equalNumbers (a b : Decimal) : Bool := a.equal b || isUndefined a && isUndefined b

/-- The order of numbers.  An undefined one is neither below nor above any other. -/
def orderOfNumbers (a b : Decimal) : Ordering := (a.order? b).getD .eq

mutual

/-- Equality of values. -/
def equal : Json → Json → Bool
  | null, null => true
  | string a, string b => a == b
  | array as, array bs => equalItems as bs
  | object as, object bs => as.length == bs.length && equalMembers as bs
  | boolean a, b => (b.number?.map (equalNumbers (.finite ⟨false, a.toNat, 0⟩))).getD false
  | integer a, b =>
      (b.number?.map (equalNumbers (.finite ⟨decide (a < 0), a.natAbs, 0⟩))).getD false
  | real a, b => (b.number?.map (equalNumbers a)).getD false
  | _, _ => false

/-- Equality of rows of values. -/
def equalItems : List Json → List Json → Bool
  | [], [] => true
  | a :: as, b :: bs => equal a b && equalItems as bs
  | _, _ => false

/-- Whether all members have an equal one of the same key among others. -/
def equalMembers : List (String × Json) → List (String × Json) → Bool
  | [], _ => true
  | (key, a) :: as, bs =>
      ((bs.lookup key).map (equal a)).getD false && equalMembers as bs

end

mutual

/-- The order of two values, where there is one. -/
def order? : Json → Json → Option Ordering
  | string a, string b => some (Text.compareTexts a b)
  | array as, array bs => orderOfItems? as bs
  | a, b =>
      match a.number?, b.number? with
      | some x, some y => some (orderOfNumbers x y)
      | _, _ => if a.equal b then some .eq else none

/-- The order of two rows, which is that of their first values that differ. -/
def orderOfItems? : List Json → List Json → Option Ordering
  | [], [] => some .eq
  | [], _ :: _ => some .lt
  | _ :: _, [] => some .gt
  | a :: as, b :: bs => if a.equal b then orderOfItems? as bs else order? a b

end

end Json
end BlockScript
