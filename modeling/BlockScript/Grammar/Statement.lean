import BlockScript.Grammar.Expression

/-!
# The grammar of statements

A statement is known by its first token: a keyword, or else an expression, which an
equals sign turns into an assignment.  A block is a row of statements up to one of the
keywords that end blocks; the rule that opened the block decides which one fits.
-/

namespace BlockScript
namespace Grammar

/-- The keywords at which a block ends. -/
def blockTerminators : List String := ["END", "ELSE", "CASE", "DEFAULT"]

/-- The value behind an equals sign, or none. -/
def optionalValue : Rule Node := do
  if ← Rule.acceptText "=" then expression else return .absent

/-- The declaration of a local variable. -/
def declaration : Rule Node := do
  Rule.expectText "LET"
  let name ← Rule.identifier "identifier"
  let typeName ← Rule.optionalType
  let value ← optionalValue
  Rule.expectText ";"
  return .declaration name (.ofText? typeName) value

/-- The end of a call. -/
def returning : Rule Node := do
  Rule.expectText "RETURN"
  if ← Rule.acceptText ";" then
    return .returning .absent
  else
    let value ← expression
    Rule.expectText ";"
    return .returning value

/-- Whether an expression may stand on the left of an assignment. -/
def isTarget : Node → Bool
  | .access .. => true
  | _ => false

/-- An expression statement or an assignment. -/
def evaluationOrAssignment : Rule Node := do
  let left ← expression
  let c ← Rule.cursor
  if c.sees (.text "=") then
    if isTarget left then
      Rule.skip
      let value ← expression
      Rule.expectText ";"
      return .assignment left value
    else Rule.reject .assignmentTarget
  else
    Rule.expectText ";"
    return .evaluation left

mutual

/-- The statements up to the end of a block. -/
def statements : Nat → Rule (List Node)
  | 0 => Rule.fail .exhausted
  | bound + 1 => do
      let c ← Rule.cursor
      if c.seesText blockTerminators then return []
      else if c.rest.isEmpty then Rule.reject (.expected "END")
      else
        let first ← statement bound
        let others ← statements bound
        return first :: others

/-- A statement. -/
def statement : Nat → Rule Node
  | 0 => Rule.fail .exhausted
  | bound + 1 => do
      let c ← Rule.cursor
      if c.sees (.text "LET") then declaration
      else if c.sees (.text "SWITCH") then switch bound
      else if c.sees (.text "IF") then conditional bound
      else if c.sees (.text "WHILE") then loop bound
      else if c.sees (.text "RETURN") then returning
      else evaluationOrAssignment

/-- A choice between two bodies. -/
def conditional : Nat → Rule Node
  | 0 => Rule.fail .exhausted
  | bound + 1 => do
      Rule.expectText "IF"
      let condition ← expression
      Rule.expectText "DO"
      let thenBody ← statements bound
      if ← Rule.acceptText "ELSE" then
        let elseBody ← statements bound
        Rule.expectText "END"
        return .conditional condition thenBody elseBody
      else
        Rule.expectText "END"
        return .conditional condition thenBody []

/-- A loop. -/
def loop : Nat → Rule Node
  | 0 => Rule.fail .exhausted
  | bound + 1 => do
      Rule.expectText "WHILE"
      let condition ← expression
      Rule.expectText "DO"
      let body ← statements bound
      Rule.expectText "END"
      return .loop condition body

/-- A choice between cases. -/
def switch : Nat → Rule Node
  | 0 => Rule.fail .exhausted
  | bound + 1 => do
      Rule.expectText "SWITCH"
      let condition ← expression
      let arms ← valueArms bound
      if arms.isEmpty then Rule.reject (.expected "CASE")
      else if !(← Rule.sees (.text "DEFAULT")) then Rule.reject (.expected "DEFAULT")
      else
        let last ← defaultArm bound
        Rule.expectText "END"
        return .switch condition (arms ++ [last])

/-- The cases that have a value, as long as they follow each other. -/
def valueArms : Nat → Rule (List Node)
  | 0 => Rule.fail .exhausted
  | bound + 1 => do
      if ← Rule.acceptText "CASE" then
        let value ← expression
        Rule.expectText ":"
        let body ← statements bound
        let others ← valueArms bound
        return .arm value body :: others
      else
        return []

/-- The default case; its colon may be left out. -/
def defaultArm : Nat → Rule Node
  | 0 => Rule.fail .exhausted
  | bound + 1 => do
      Rule.expectText "DEFAULT"
      let _ ← Rule.acceptText ":"
      let body ← statements bound
      return .arm .absent body

end

/-- The statements of a block. -/
def block : Rule (List Node) := fun c => statements (nestingBound c.rest) c

/-- One statement. -/
def oneStatement : Rule Node := fun c => statement (nestingBound c.rest) c

end Grammar
end BlockScript
