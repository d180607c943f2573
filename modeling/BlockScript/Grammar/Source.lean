import BlockScript.Grammar.Statement
import BlockScript.Token.Scan

/-!
# The grammar of programs

A program is a row of globals and then a row of functions, and nothing else.  `VAL`
declares an immutable global, which needs a value; `LIST`, `VAR` and `LET` declare
mutable ones.
-/

namespace BlockScript
namespace Grammar

/-- The keywords that declare globals. -/
def globalKeywords : List String := ["LIST", "VAR", "VAL", "LET"]

/-- A global behind `LIST`: its value is a list literal. -/
def listGlobal : Rule Node := do
  let name ← Rule.identifier "identifier"
  let typeName ← Rule.optionalType
  Rule.expectText "="
  Rule.expectText "["
  let value ← listElements
  return .global name (.ofText? typeName) true value

/-- A global behind `VAR` or `LET`: its value may be left out. -/
def mutableGlobal : Rule Node := do
  let name ← Rule.identifier "identifier"
  let typeName ← Rule.optionalType
  let value ← optionalValue
  return .global name (.ofText? typeName) true value

/-- A global behind `VAL`: it is immutable and has a value. -/
def immutableGlobal : Rule Node := do
  let name ← Rule.identifier "identifier"
  let typeName ← Rule.optionalType
  let _ ← Rule.expectAs (.text "=") "'=' (immutable value must be initialized)"
  let value ← expression
  return .global name (.ofText? typeName) false value

/-- The declaration of a global.  A first token that is none of the keywords is passed
like `VAR`. -/
def global : Rule Node := do
  if ← Rule.acceptText "LIST" then
    let declared ← listGlobal
    Rule.expectText ";"
    return declared
  else if ← Rule.acceptText "VAL" then
    let declared ← immutableGlobal
    Rule.expectText ";"
    return declared
  else
    Rule.skip
    let declared ← mutableGlobal
    Rule.expectText ";"
    return declared

/-- A parameter with its optional type name. -/
def parameter : Rule (String × Option String) := do
  let name ← Rule.identifier "parameter name"
  let typeName ← Rule.optionalType
  return (name, typeName)

/-- One or more parameters with commas between them. -/
def parameters : Nat → Rule (List (String × Option String))
  | 0 => Rule.fail .exhausted
  | bound + 1 => do
      let first ← parameter
      if ← Rule.acceptText "," then
        let others ← parameters bound
        return first :: others
      else
        return [first]

/-- The parameters of a function, up to the closing parenthesis, which is not read. -/
def optionalParameters : Rule (List (String × Option String)) := do
  if ← Rule.sees (.text ")") then return []
  else fun c => parameters (nestingBound c.rest) c

/-- The declaration of a function. -/
def function : Rule Node := do
  Rule.expectText "FUN"
  let name ← Rule.identifier "function name"
  Rule.expectText "("
  let ps ← optionalParameters
  Rule.expectText ")"
  let returnType ← Rule.optionalType
  Rule.expectText "DO"
  let body ← block
  Rule.expectText "END"
  return .function name (ps.map fun p => Name.ofText p.1) (ps.map fun p => Name.ofText? p.2)
    (.ofText? returnType) body

/-- The globals at the front of a program. -/
def globals : Nat → Rule (List Node)
  | 0 => Rule.fail .exhausted
  | bound + 1 => do
      let c ← Rule.cursor
      if c.seesText globalKeywords then
        let first ← global
        let others ← globals bound
        return first :: others
      else return []

/-- The functions behind the globals. -/
def functions : Nat → Rule (List Node)
  | 0 => Rule.fail .exhausted
  | bound + 1 => do
      if ← Rule.sees (.text "FUN") then
        let first ← function
        let others ← functions bound
        return first :: others
      else return []

/-- A whole program. -/
def source : Rule Node := do
  let c ← Rule.cursor
  let bound := nestingBound c.rest
  let gs ← globals bound
  let fs ← functions bound
  let last ← Rule.cursor
  if last.rest.isEmpty then return .source gs fs
  else Rule.reject (.expected "global or function declaration")

/-- The tree of a row of tokens. -/
def parse (tokens : List Token) : Except ParseFailure Node :=
  (source (.start tokens)).map Prod.fst

end Grammar

/-- Why no tree is made from a source text. -/
inductive SyntaxFailure
  | lexical (error : LexError)
  | grammatical (failure : ParseFailure)
deriving DecidableEq, Inhabited

namespace Grammar

/-- The tree of a source text. -/
def parseProgram (text : String) : Except SyntaxFailure Node :=
  match Token.scan text with
  | .error e => .error (.lexical e)
  | .ok tokens =>
      match parse tokens with
      | .error e => .error (.grammatical e)
      | .ok tree => .ok tree

end Grammar
end BlockScript
