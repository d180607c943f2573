import BlockScript.Value.Basic

/-!
# Text and equality of values

Both walk through the lists that a value reaches.  A list that contains itself is walked
without end, so the walks carry a bound on how deep they go and say when it is met.
-/

namespace BlockScript

/-- Why there is no answer whether two values are equal. -/
inductive EqualityFault
  /-- The walk goes deeper than its bound. -/
  | endless
  /-- A number refuses to be compared. -/
  | refused
deriving DecidableEq, Inhabited

namespace Heap

/-- The text of a value: the items of a list stand in brackets with commas between them. -/
def text (h : Heap) : Nat → Value → Except TextFault String
  | _, .scalar s => s.text
  | 0, .list _ => .error .endless
  | bound + 1, .list r => do
      let parts ← (h.items r).mapM (text h bound)
      return "[" ++ ", ".intercalate parts ++ "]"

/-- Whether all pairs of two rows are equal, up to the first that is not. -/
def allEqual (equal : Value → Value → Except EqualityFault Bool) :
    List Value → List Value → Except EqualityFault Bool
  | a :: as, b :: bs =>
      match equal a b with
      | .ok true => allEqual equal as bs
      | other => other
  | _, _ => .ok true

/-- Equality of values: lists are equal when they have as many items and these are equal. -/
def equal (h : Heap) : Nat → Value → Value → Except EqualityFault Bool
  | _, .scalar a, .scalar b => if a.refuse b then .error .refused else .ok (a.equal b)
  | 0, .list _, .list _ => .error .endless
  | bound + 1, .list r, .list s =>
      let as := h.items r
      let bs := h.items s
      if as.length = bs.length then allEqual (equal h bound) as bs else .ok false
  | _, _, _ => .ok false

end Heap
end BlockScript
