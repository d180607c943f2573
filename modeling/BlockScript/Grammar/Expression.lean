import BlockScript.Tree.Basic
import BlockScript.Grammar.Literal

/-!
# The grammar of expressions

Binary operators stand in four layers, from the weakest to the strongest: the logical
ones, comparisons, sums and products.  Operators of one layer group to the left.

Below the layers stand the primaries: literals, variables with an optional offset,
calls, lists and expressions in parentheses.

The rules call each other along the nesting of the text.  They carry a bound on that
nesting, `nestingBound`, which the number of tokens left makes large enough.
-/

namespace BlockScript
namespace Grammar

/-- The operators of each layer, from the weakest to the strongest. -/
def operatorLayers : List (List String) :=
  [["&&", "||"], ["<", ">", "==", "!="], ["+", "-"], ["*", "/", "^"]]

/-- The value of a literal token as a tree. -/
def literalNode (t : Token) : Rule Node :=
  match Literal.ofToken t with
  | .ok value => return .literal value
  | .error failure => Rule.fail failure

mutual

/-- An expression whose operators are those of the given layers. -/
def layers : Nat → List (List String) → Rule Node
  | 0, _ => Rule.fail .exhausted
  | bound + 1, [] => primary bound
  | bound + 1, operators :: inner => do
      let left ← layers bound inner
      operations bound operators inner left

/-- The rest of one layer behind its first operand: operators with their right operands. -/
def operations : Nat → List String → List (List String) → Node → Rule Node
  | 0, _, _, _ => Rule.fail .exhausted
  | bound + 1, operators, inner, left => do
      let c ← Rule.cursor
      match c.rest with
      | t :: _ =>
          if operators.contains t.text then
            Rule.skip
            let right ← layers bound inner
            operations bound operators inner (.binary t.text left right)
          else return left
      | [] => return left

/-- An operand. -/
def primary : Nat → Rule Node
  | 0 => Rule.fail .exhausted
  | bound + 1 => do
      let c ← Rule.cursor
      match c.rest with
      | [] => Rule.reject (.expected "expression")
      | t :: _ =>
          if t.text == "NIL" then
            Rule.skip
            return .literal .nil
          else if t.text == "TRUE" then
            Rule.skip
            return .literal (.boolean true)
          else if t.text == "FALSE" then
            Rule.skip
            return .literal (.boolean false)
          else match t.kind with
            | .identifier =>
                Rule.skip
                named bound t.text
            | .operator =>
                if t.text == "[" then
                  Rule.skip
                  let elements ← expressions bound
                  Rule.expectText "]"
                  return .list elements
                else if t.text == "(" then
                  Rule.skip
                  let inner ← layers bound operatorLayers
                  Rule.expectText ")"
                  return .group inner
                else Rule.reject (.expected "expression")
            | _ =>
                Rule.skip
                literalNode t

/-- What a name stands for: a call, an item of a list or a variable. -/
def named : Nat → String → Rule Node
  | 0, _ => Rule.fail .exhausted
  | bound + 1, name => do
      if ← Rule.acceptText "(" then
        if ← Rule.sees (.text ")") then
          Rule.skip
          return .call name []
        else
          let arguments ← expressions bound
          Rule.expectText ")"
          return .call name arguments
      else if ← Rule.acceptText "[" then
        let offset ← layers bound operatorLayers
        Rule.expectText "]"
        return .access name offset
      else
        return .access name .absent

/-- One or more expressions with commas between them. -/
def expressions : Nat → Rule (List Node)
  | 0 => Rule.fail .exhausted
  | bound + 1 => do
      let first ← layers bound operatorLayers
      if ← Rule.acceptText "," then
        let others ← expressions bound
        return first :: others
      else
        return [first]

end

/-- A bound on the nesting of rules that a row of tokens can need. -/
def nestingBound (tokens : List Token) : Nat := 16 * tokens.length + 16

/-- An expression. -/
def expression : Rule Node := fun c => layers (nestingBound c.rest) operatorLayers c

/-- The elements of a list behind its opening bracket, with the closing one. -/
def listElements : Rule Node := fun c =>
  (do
    let elements ← expressions (nestingBound c.rest)
    Rule.expectText "]"
    return Node.list elements : Rule Node) c

end Grammar
end BlockScript
