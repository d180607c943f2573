import BlockScript.Text.Printable
import BlockScript.Text.InFiles

/-!
# Quoted text

Messages show a piece of source text in quotes, so that blanks, quotes and control
characters in it stay visible.

* Single quotes are used, unless the text holds a single quote and no double quote.
* A backslash and the quote in use are preceded by a backslash; tab, line feed and
  carriage return are written as their letters.
* Any other character that is not printable is written as its code point in two,
  four or eight hexadecimal digits.
-/

namespace BlockScript
namespace Text

/-- The digits `0` to `9` and the letters from `a` on, for values below thirty-six. -/
def digitChar (d : Nat) : Char :=
  if d < 10 then Char.ofNat (48 + d) else Char.ofNat (87 + d)

/-- The last `width` hexadecimal digits of a number, most significant first. -/
def hexDigits : Nat → Nat → List Char
  | 0, _ => []
  | width + 1, n => hexDigits width (n / 16) ++ [digitChar (n % 16)]

/-- An unprintable character written as its code point. -/
def escapeCodePoint (n : Nat) : List Char :=
  if n ≤ 0xFF then '\\' :: 'x' :: hexDigits 2 n
  else if n ≤ 0xFFFF then '\\' :: 'u' :: hexDigits 4 n
  else '\\' :: 'U' :: hexDigits 8 n

/-- A text with the halves of surrogate pairs in it written as their code points. -/
def escapeHalves (s : String) : String :=
  String.ofList (s.toList.flatMap fun c =>
    if isHalf c then escapeCodePoint (codePoint c) else [c])

/-- One character inside quotes of the given kind. -/
def quoteChar (quote c : Char) : List Char :=
  if c = '\\' ∨ c = quote then ['\\', c]
  else if c = '\t' then ['\\', 't']
  else if c = '\n' then ['\\', 'n']
  else if c = '\r' then ['\\', 'r']
  else if isPrintable c then [c]
  else escapeCodePoint (codePoint c)

/-- The quote that surrounds a text: the double quote only where it saves escapes. -/
def chooseQuote (cs : List Char) : Char :=
  if cs.contains '\'' && !cs.contains '"' then '"' else '\''

/-- A text in quotes. -/
def quoted (s : String) : String :=
  let cs := s.toList
  let quote := chooseQuote cs
  String.ofList (quote :: cs.flatMap (quoteChar quote) ++ [quote])

end Text
end BlockScript
