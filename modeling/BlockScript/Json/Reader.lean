import BlockScript.Decimal.Double
import BlockScript.Json.Basic

/-!
# Reading JSON texts

A text holds one value with blanks around its tokens.  Beside the standard forms the
names `NaN`, `Infinity` and `-Infinity` are numbers.  Control characters may not stand
in a text, and for half of a surrogate pair alone its stand-in is read.

Where an object gives a key twice, the last value counts, at the place of the first.

Arrays and objects nest only to a certain depth.  Beside that the rules carry a bound on
their steps, which the length of the text makes large enough.
-/

namespace BlockScript

/-- Why a text is no value. -/
inductive JsonFault
  /-- The text does not follow the grammar. -/
  | malformed
  /-- An integer has more digits than are converted. -/
  | numeral
  /-- Arrays and objects nest too deep. -/
  | tooDeep
deriving DecidableEq, Inhabited

namespace Json

/-- Whether a character may stand between tokens. -/
def isBlank (c : Char) : Bool := c = ' ' || c = '\t' || c = '\n' || c = '\r'

/-- The text behind the blanks at its front. -/
def skipBlanks (cs : List Char) : List Char := cs.dropWhile isBlank

/-- The text behind a word at its front. -/
def dropWord? : List Char → List Char → Option (List Char)
  | [], cs => some cs
  | w :: ws, c :: cs => if w = c then dropWord? ws cs else none
  | _ :: _, [] => none

/-- The value of a hexadecimal digit. -/
def hexValue? (c : Char) : Option Nat :=
  if '0' ≤ c ∧ c ≤ '9' then some (c.toNat - 48)
  else if 'a' ≤ c ∧ c ≤ 'f' then some (c.toNat - 87)
  else if 'A' ≤ c ∧ c ≤ 'F' then some (c.toNat - 55)
  else none

/-- The number of four hexadecimal digits at the front. -/
def readHex? : List Char → Option (Nat × List Char)
  | a :: b :: c :: d :: cs => do
      let a ← hexValue? a
      let b ← hexValue? b
      let c ← hexValue? c
      let d ← hexValue? d
      return (((a * 16 + b) * 16 + c) * 16 + d, cs)
  | _ => none

/-- Whether a code unit is the first half of a surrogate pair. -/
def isHighHalf (n : Nat) : Bool := 0xD800 ≤ n && n ≤ 0xDBFF

/-- Whether a code unit is the second half of a surrogate pair. -/
def isLowHalf (n : Nat) : Bool := 0xDC00 ≤ n && n ≤ 0xDFFF

/-- The character of a code unit, or the one that stands for a half. -/
def unitChar (n : Nat) : Char :=
  if isHighHalf n || isLowHalf n then Text.standIn n else Char.ofNat n

/-- The character of an escape by code unit, behind the backslash and the letter. -/
def readUnit? (cs : List Char) : Option (Char × List Char) := do
  let (unit, rest) ← readHex? cs
  if isHighHalf unit then
    match rest with
    | '\\' :: 'u' :: more =>
        let (second, rest') ← readHex? more
        if isLowHalf second then
          return (Char.ofNat (0x10000 + (unit - 0xD800) * 0x400 + (second - 0xDC00)), rest')
        else return (unitChar unit, rest)
    | _ => return (unitChar unit, rest)
  else return (unitChar unit, rest)

/-- The character that an escape letter stands for. -/
def simpleEscape? : Char → Option Char
  | '"' => some '"'
  | '\\' => some '\\'
  | '/' => some '/'
  | 'b' => some '\x08'
  | 'f' => some '\x0c'
  | 'n' => some '\n'
  | 'r' => some '\r'
  | 't' => some '\t'
  | _ => none

/-- The characters of a text up to its closing quote. -/
def readText : Nat → List Char → Except JsonFault (List Char × List Char)
  | 0, _ => .error .malformed
  | _ + 1, [] => .error .malformed
  | bound + 1, c :: cs =>
      if c = '"' then .ok ([], cs)
      else if c = '\\' then
        match cs with
        | 'u' :: more =>
            match readUnit? more with
            | some (d, rest) => (readText bound rest).map fun r => (d :: r.1, r.2)
            | none => .error .malformed
        | e :: more =>
            match simpleEscape? e with
            | some d => (readText bound more).map fun r => (d :: r.1, r.2)
            | none => .error .malformed
        | [] => .error .malformed
      else if c.toNat < 0x20 then .error .malformed
      else (readText bound cs).map fun r => (c :: r.1, r.2)

/-- Splits the whole part of a number off the front: a zero alone, or all digits. -/
def splitWhole : List Char → List Char × List Char
  | '0' :: cs => (['0'], cs)
  | cs => (cs.takeWhile Text.isDigit, cs.dropWhile Text.isDigit)

/-- Splits a fraction off the front. -/
def splitFraction : List Char → List Char × List Char
  | '.' :: c :: cs =>
      if Text.isDigit c then ('.' :: c :: cs.takeWhile Text.isDigit, cs.dropWhile Text.isDigit)
      else ([], '.' :: c :: cs)
  | cs => ([], cs)

/-- Splits the sign of a power of ten off the front. -/
def splitPowerSign : List Char → List Char × List Char
  | '+' :: cs => (['+'], cs)
  | '-' :: cs => (['-'], cs)
  | cs => ([], cs)

/-- Splits a power of ten off the front. -/
def splitPower : List Char → List Char × List Char
  | c :: cs =>
      if c = 'e' ∨ c = 'E' then
        let (sign, ds) := splitPowerSign cs
        if ds.takeWhile Text.isDigit = [] then ([], c :: cs)
        else (c :: (sign ++ ds.takeWhile Text.isDigit), ds.dropWhile Text.isDigit)
      else ([], c :: cs)
  | [] => ([], [])

/-- A number, its sign being read. -/
def readNumber (negative : Bool) (cs : List Char) : Except JsonFault (Json × List Char) :=
  let (whole, afterWhole) := splitWhole cs
  let (fraction, afterFraction) := splitFraction afterWhole
  let (power, rest) := splitPower afterFraction
  if whole = [] then .error .malformed
  else if fraction = [] ∧ power = [] then
    if whole.length ≤ Text.digitLimit then
      let n : Int := Text.ofDigits whole
      .ok (.integer (if negative then -n else n), rest)
    else .error .numeral
  else
    match Decimal.readFinite? negative (whole ++ fraction ++ power) with
    | some d => .ok (.real (Decimal.nearestDouble d), rest)
    | none => .error .malformed

/-- A value that is a word or a number. -/
def readAtom (cs : List Char) : Except JsonFault (Json × List Char) :=
  match cs with
  | 'n' :: _ =>
      match dropWord? "null".toList cs with
      | some rest => .ok (.null, rest)
      | none => .error .malformed
  | 't' :: _ =>
      match dropWord? "true".toList cs with
      | some rest => .ok (.boolean true, rest)
      | none => .error .malformed
  | 'f' :: _ =>
      match dropWord? "false".toList cs with
      | some rest => .ok (.boolean false, rest)
      | none => .error .malformed
  | 'N' :: _ =>
      match dropWord? "NaN".toList cs with
      | some rest => .ok (.real (.undefined false false 0), rest)
      | none => .error .malformed
  | 'I' :: _ =>
      match dropWord? "Infinity".toList cs with
      | some rest => .ok (.real (.infinite false), rest)
      | none => .error .malformed
  | '-' :: more =>
      match dropWord? "Infinity".toList more with
      | some rest => .ok (.real (.infinite true), rest)
      | none => readNumber true more
  | _ => readNumber false cs

/-- Puts a member behind others; a key that is there already keeps its place. -/
def putMember (key : String) (value : Json) : List (String × Json) → List (String × Json)
  | [] => [(key, value)]
  | (k, v) :: members =>
      if k == key then (k, value) :: members else (k, v) :: putMember key value members

mutual

/-- A value, behind blanks, with a number of levels left below it. -/
def readValue : Nat → Nat → List Char → Except JsonFault (Json × List Char)
  | 0, _, _ => .error .malformed
  | bound + 1, levels, text =>
      match skipBlanks text with
      | '"' :: cs =>
          (readText bound cs).map fun r => (.string (String.ofList r.1), r.2)
      | '[' :: cs =>
          match levels, skipBlanks cs with
          | 0, _ => .error .tooDeep
          | _ + 1, ']' :: rest => .ok (.array [], rest)
          | below + 1, _ => (readItems bound below cs).map fun r => (.array r.1, r.2)
      | '\x7b' :: cs =>
          match levels, skipBlanks cs with
          | 0, _ => .error .tooDeep
          | _ + 1, '\x7d' :: rest => .ok (.object [], rest)
          | below + 1, _ => (readMembers bound below [] cs).map fun r => (.object r.1, r.2)
      | cs => readAtom cs

/-- The items of an array up to its closing bracket. -/
def readItems : Nat → Nat → List Char → Except JsonFault (List Json × List Char)
  | 0, _, _ => .error .malformed
  | bound + 1, levels, text => do
      let (item, rest) ← readValue bound levels text
      match skipBlanks rest with
      | ',' :: more =>
          let (items, rest') ← readItems bound levels more
          return (item :: items, rest')
      | ']' :: more => return ([item], more)
      | _ => .error .malformed

/-- The members of an object up to its closing brace, behind those already read. -/
def readMembers : Nat → Nat → List (String × Json) → List Char →
    Except JsonFault (List (String × Json) × List Char)
  | 0, _, _, _ => .error .malformed
  | bound + 1, levels, before, text =>
      match skipBlanks text with
      | '"' :: cs => do
          let (key, rest) ← readText bound cs
          match skipBlanks rest with
          | ':' :: more =>
              let (value, rest') ← readValue bound levels more
              let members := putMember (String.ofList key) value before
              match skipBlanks rest' with
              | ',' :: more' => readMembers bound levels members more'
              | '\x7d' :: more' => return (members, more')
              | _ => .error .malformed
          | _ => .error .malformed
      | _ => .error .malformed

end

/-- How deep arrays and objects nest. -/
def deepest : Nat := 900

/-- The value that a text holds. -/
def read (text : String) : Except JsonFault Json := do
  let cs := text.toList
  let (value, rest) ← readValue (2 * cs.length + 2) deepest cs
  if skipBlanks rest = [] then return value else .error .malformed

end Json
end BlockScript
