import BlockScript.Scalar
import BlockScript.Token.Basic
import BlockScript.Grammar.Rule

/-!
# The values of literals

Numerals denote numbers with all their digits.  They are read with all the freedom that
texts of numbers have, of which no numeral of a source text makes use.  The text between the
quotes of a character or string literal is taken with its escapes decoded from left to right,
so that no backslash is decoded twice.
-/

namespace BlockScript
namespace Literal

/-- The character that an escape letter stands for. -/
def decodeEscape? : Char → Option Char
  | 'b' => some '\x08'
  | 'n' => some '\n'
  | 'r' => some '\r'
  | 't' => some '\t'
  | '\'' => some '\''
  | '"' => some '"'
  | '\\' => some '\\'
  | _ => none

/-- Decodes the escapes of a text; a backslash that starts none stays. -/
def unescape : List Char → List Char
  | '\\' :: e :: cs =>
      match decodeEscape? e with
      | some c => c :: unescape cs
      | none => '\\' :: unescape (e :: cs)
  | c :: cs => c :: unescape cs
  | [] => []
termination_by cs => cs.length

/-- The text between the quotes of a literal. -/
def body (text : String) : List Char := text.toList.tail.dropLast

/-- The decoded text of a quoted literal. -/
def content (text : String) : String := String.ofList (unescape (body text))

/-- The value of an integer, decimal, character or string token. -/
def ofToken (t : Token) : Except ParseFailure Scalar :=
  match t.kind with
  | .integer =>
      match Text.readLooseInt? t.text.toList with
      | some n => .ok (.integer n)
      | none => .error .integerNumeral
  | .decimal =>
      match Decimal.ofText? t.text with
      | some d => .ok (.decimal d)
      | none => .error .decimalNumeral
  | .character => .ok (.ofCharacter (content t.text))
  | _ => .ok (.string (content t.text))

end Literal
end BlockScript
