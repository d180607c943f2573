import BlockScript.Json.Basic

/-!
# The layout of JSON files

Arrays and objects have one entry a line, two blanks further in for each level, and an
empty one is a pair of brackets.  Texts are written as they are, except that quotes,
backslashes and control characters are escaped.  No line feed ends the file.
-/

namespace BlockScript
namespace Json

/-- One character inside quotes. -/
def escapeChar (c : Char) : List Char :=
  match c with
  | '"' => ['\\', '"']
  | '\\' => ['\\', '\\']
  | '\n' => ['\\', 'n']
  | '\r' => ['\\', 'r']
  | '\t' => ['\\', 't']
  | '\x08' => ['\\', 'b']
  | '\x0c' => ['\\', 'f']
  | _ => if c.toNat < 0x20 then '\\' :: 'u' :: Text.hexDigits 4 c.toNat else [c]

/-- A text in quotes. -/
def quote (s : String) : String :=
  String.ofList ('"' :: s.toList.flatMap escapeChar ++ ['"'])

/-- The text of a number of double precision. -/
def realText : Decimal → String
  | .finite d => Decimal.doubleText (.finite d)
  | special => special.toText

/-- The start of a line at a level. -/
def lineStart (level : Nat) : String :=
  String.ofList ('\n' :: List.replicate (2 * level) ' ')

/-- Entries between brackets, one a line. -/
def enclosed (opening closing : String) (level : Nat) : List String → String
  | [] => opening ++ closing
  | entries =>
      opening ++ lineStart (level + 1) ++ (("," ++ lineStart (level + 1)).intercalate entries)
        ++ lineStart level ++ closing

mutual

/-- The text of a value whose first line stands at a level. -/
def layout (level : Nat) : Json → String
  | null => "null"
  | boolean value => if value then "true" else "false"
  | integer value => Text.intTextOfAnySize value
  | real value => realText value
  | string text => quote text
  | array items => enclosed "[" "]" level (layoutItems (level + 1) items)
  | object members => enclosed "\x7b" "\x7d" level (layoutMembers (level + 1) members)

/-- The texts of the items of an array. -/
def layoutItems (level : Nat) : List Json → List String
  | [] => []
  | item :: items => layout level item :: layoutItems level items

/-- The texts of the members of an object. -/
def layoutMembers (level : Nat) : List (String × Json) → List String
  | [] => []
  | (key, value) :: members =>
      (quote key ++ ": " ++ layout level value) :: layoutMembers level members

end

/-- The text of a file that holds a value. -/
def fileText (value : Json) : String := layout 0 value

end Json
end BlockScript
