import BlockScript.Text.Printable
import BlockScript.Token.Basic

/-!
# One token at the front of a text

The first character fixes what kind of token starts, and the token is the longest
piece of that form.

* A letter or `@` starts an identifier.
* A digit, or a minus before a digit, starts a number; its fraction needs a digit
  behind the point.
* A quote starts a character or string literal.
* Anything else is an operator, of two characters where the table knows them.

Every token is a non-empty front of the text: `next_split` and `next_text_ne_nil`.
-/

namespace BlockScript

/-- The two kinds of quoted literals. -/
inductive QuotedKind
  | character | string
deriving DecidableEq, Inhabited

/-- What is wrong with a quoted literal. -/
inductive LexCause
  | invalidEscape (literal : QuotedKind)
  | invalidCharacter
  | unterminatedCharacter
  | unterminatedString
deriving DecidableEq, Inhabited

namespace LexCause

/-- The message of a cause. -/
def message : LexCause → String
  | invalidEscape .character => "invalid escape sequence in character literal"
  | invalidEscape .string => "invalid escape sequence in string literal"
  | invalidCharacter => "invalid character literal"
  | unterminatedCharacter => "unterminated character literal"
  | unterminatedString => "unterminated string literal"

end LexCause

/-- A fault at a number of characters behind the start of the token. -/
structure LexFault where
  cause : LexCause
  offset : Nat
deriving DecidableEq, Inhabited

/-- A token split off the front of a text. -/
structure Lexeme where
  kind : TokenKind
  text : List Char
  rest : List Char
deriving DecidableEq, Inhabited

namespace Lexeme

/-- Whether a character separates tokens. -/
def isBlank (c : Char) : Bool :=
  c = ' ' || c = '\t' || c = '\n' || c = '\r' || c = '\x08'

/-- Whether a character is an ASCII letter. -/
def isLetter (c : Char) : Bool :=
  ('a' ≤ c && c ≤ 'z') || ('A' ≤ c && c ≤ 'Z')

/-- Whether a character is one of the ten decimal digits. -/
def isDigit (c : Char) : Bool := '0' ≤ c && c ≤ '9'

/-- Whether a character may start an identifier. -/
def startsIdentifier (c : Char) : Bool := c = '@' || isLetter c

/-- Whether a character may continue an identifier. -/
def continuesIdentifier (c : Char) : Bool :=
  isLetter c || isDigit c || c = '_' || c = '-'

/-- Whether a character may follow the backslash of an escape. -/
def isEscapeLetter (c : Char) : Bool :=
  c = 'b' || c = 'n' || c = 'r' || c = 't' || c = '\'' || c = '"' || c = '\\'

/-- Splits the whole part of a number off: a zero alone, or all digits. -/
def splitWhole : List Char → List Char × List Char
  | '0' :: cs => (['0'], cs)
  | cs => (cs.takeWhile isDigit, cs.dropWhile isDigit)

/-- Splits the fraction of a number off: a point with at least one digit behind it. -/
def splitFraction : List Char → List Char × List Char
  | '.' :: c :: cs =>
      if isDigit c then ('.' :: c :: cs.takeWhile isDigit, cs.dropWhile isDigit)
      else ([], '.' :: c :: cs)
  | cs => ([], cs)

/-- An unsigned number, behind the characters `sign` that are already read. -/
def number (sign cs : List Char) : Lexeme :=
  let (whole, afterWhole) := splitWhole cs
  let (fraction, rest) := splitFraction afterWhole
  { kind := if fraction = [] then .integer else .decimal
    text := sign ++ whole ++ fraction
    rest := rest }

/-- A token of one character. -/
def single (kind : TokenKind) (c : Char) (rest : List Char) : Lexeme := ⟨kind, [c], rest⟩

/-- A minus: the sign of a number when a digit follows, else an operator. -/
def minus : List Char → Lexeme
  | c :: cs => if isDigit c then number ['-'] (c :: cs) else single .operator '-' (c :: cs)
  | [] => single .operator '-' []

/-- An operator: one of the pairs `==`, `!=`, `&&`, `||`, or a single character. -/
def operator : Char → List Char → Lexeme
  | '=', '=' :: rest => ⟨.operator, ['=', '='], rest⟩
  | '!', '=' :: rest => ⟨.operator, ['!', '='], rest⟩
  | '&', '&' :: rest => ⟨.operator, ['&', '&'], rest⟩
  | '|', '|' :: rest => ⟨.operator, ['|', '|'], rest⟩
  | c, rest => single .operator c rest

/-- The end of a character literal: its content is read, and the quote has to follow. -/
def closeCharacter (content : List Char) : List Char → Except LexFault Lexeme
  | '\'' :: rest => .ok ⟨.character, '\'' :: (content ++ ['\'']), rest⟩
  | _ => .error ⟨.unterminatedCharacter, content.length + 1⟩

/-- A character literal, behind its first quote. -/
def character : List Char → Except LexFault Lexeme
  | '\\' :: e :: cs =>
      if isEscapeLetter e then closeCharacter ['\\', e] cs
      else .error ⟨.invalidEscape .character, 2⟩
  | ['\\'] => .error ⟨.invalidEscape .character, 2⟩
  | c :: cs =>
      if c = '\'' || c = '\n' || c = '\r' then .error ⟨.invalidCharacter, 1⟩
      else closeCharacter [c] cs
  | [] => .error ⟨.invalidCharacter, 1⟩

/-- The rest of a string literal up to its closing quote, `before` characters of which are
already read: the body with the quote, and what follows. -/
def stringBody (before : Nat) : List Char → Except LexFault (List Char × List Char)
  | '"' :: rest => .ok (['"'], rest)
  | '\\' :: e :: cs =>
      if isEscapeLetter e then
        (stringBody (before + 2) cs).map fun r => ('\\' :: e :: r.1, r.2)
      else .error ⟨.invalidEscape .string, before + 1⟩
  | ['\\'] => .error ⟨.invalidEscape .string, before + 1⟩
  | c :: cs =>
      if Text.isPrintable c then
        (stringBody (before + 1) cs).map fun r => (c :: r.1, r.2)
      else .error ⟨.unterminatedString, before⟩
  | [] => .error ⟨.unterminatedString, before⟩

/-- The token that starts with the character `c` before the text `cs`. -/
def next (c : Char) (cs : List Char) : Except LexFault Lexeme :=
  if startsIdentifier c then
    .ok ⟨.identifier, c :: cs.takeWhile continuesIdentifier, cs.dropWhile continuesIdentifier⟩
  else if c = '-' then .ok (minus cs)
  else if isDigit c then .ok (number [] (c :: cs))
  else if c = '\'' then character cs
  else if c = '"' then
    (stringBody 1 cs).map fun r => ⟨.string, '"' :: r.1, r.2⟩
  else .ok (operator c cs)

section Split

theorem splitWhole_split (cs : List Char) :
    (splitWhole cs).1 ++ (splitWhole cs).2 = cs := by
  unfold splitWhole
  split
  · rfl
  · exact List.takeWhile_append_dropWhile

theorem splitFraction_split (cs : List Char) :
    (splitFraction cs).1 ++ (splitFraction cs).2 = cs := by
  unfold splitFraction
  split
  · split
    · simp [List.takeWhile_append_dropWhile]
    · rfl
  · rfl

theorem number_split (sign cs : List Char) :
    (number sign cs).text ++ (number sign cs).rest = sign ++ cs := by
  simp only [number, List.append_assoc]
  rw [splitFraction_split, splitWhole_split]

theorem minus_split (cs : List Char) :
    (minus cs).text ++ (minus cs).rest = '-' :: cs := by
  unfold minus
  split
  · split
    · exact number_split ['-'] _
    · rfl
  · rfl

theorem operator_split (c : Char) (cs : List Char) :
    (operator c cs).text ++ (operator c cs).rest = c :: cs := by
  unfold operator
  split <;> rfl

theorem closeCharacter_split {content cs : List Char} {l : Lexeme}
    (h : closeCharacter content cs = .ok l) :
    l.text ++ l.rest = '\'' :: (content ++ cs) := by
  unfold closeCharacter at h
  split at h
  · cases h
    simp
  · cases h

theorem character_split {cs : List Char} {l : Lexeme} (h : character cs = .ok l) :
    l.text ++ l.rest = '\'' :: cs := by
  unfold character at h
  split at h
  · split at h
    · simpa using closeCharacter_split h
    · cases h
  · cases h
  · split at h
    · cases h
    · simpa using closeCharacter_split h
  · cases h

theorem stringBody_split {cs : List Char} {before : Nat} {r : List Char × List Char}
    (h : stringBody before cs = .ok r) : r.1 ++ r.2 = cs := by
  fun_induction stringBody before cs generalizing r with
  | case1 => cases h; rfl
  | case2 before e cs he ih =>
    cases hb : stringBody (before + 2) cs with
    | error f => simp [hb, Except.map] at h
    | ok r' =>
      simp only [hb, Except.map, Except.ok.injEq] at h
      subst h
      simpa using ih hb
  | case3 => cases h
  | case4 => cases h
  | case5 before c cs _ _ _ hp ih =>
    cases hb : stringBody (before + 1) cs with
    | error f => simp [hb, Except.map] at h
    | ok r' =>
      simp only [hb, Except.map, Except.ok.injEq] at h
      subst h
      simpa using ih hb
  | case6 => cases h
  | case7 => cases h

/-- The token and what follows it make up the text. -/
theorem next_split {c : Char} {cs : List Char} {l : Lexeme} (h : next c cs = .ok l) :
    l.text ++ l.rest = c :: cs := by
  unfold next at h
  split at h
  · cases h
    simp [List.takeWhile_append_dropWhile]
  · split at h
    · rename_i hc
      cases h
      simpa [hc] using minus_split cs
    · split at h
      · cases h
        simpa using number_split [] (c :: cs)
      · split at h
        · rename_i hc
          simpa [hc] using character_split h
        · split at h
          · rename_i hc
            cases hb : stringBody 1 cs with
            | error f => simp [hb, Except.map] at h
            | ok r =>
              simp only [hb, Except.map, Except.ok.injEq] at h
              subst h
              simp [stringBody_split hb, hc]
          · cases h
            exact operator_split c cs

end Split

section Nonempty

theorem splitWhole_ne_nil {c : Char} {cs : List Char} (h : isDigit c = true) :
    (splitWhole (c :: cs)).1 ≠ [] := by
  unfold splitWhole
  split
  · simp
  · rename_i heq
    simp [h]

theorem number_text_ne_nil {c : Char} {cs sign : List Char} (h : isDigit c = true) :
    (number sign (c :: cs)).text ≠ [] := by
  simp [number, splitWhole_ne_nil h]

theorem closeCharacter_text_ne_nil {content cs : List Char} {l : Lexeme}
    (h : closeCharacter content cs = .ok l) : l.text ≠ [] := by
  unfold closeCharacter at h
  split at h
  · cases h
    simp
  · cases h

theorem character_text_ne_nil {cs : List Char} {l : Lexeme} (h : character cs = .ok l) :
    l.text ≠ [] := by
  unfold character at h
  split at h
  · split at h
    · exact closeCharacter_text_ne_nil h
    · cases h
  · cases h
  · split at h
    · cases h
    · exact closeCharacter_text_ne_nil h
  · cases h

/-- A token has at least one character. -/
theorem next_text_ne_nil {c : Char} {cs : List Char} {l : Lexeme} (h : next c cs = .ok l) :
    l.text ≠ [] := by
  unfold next at h
  split at h
  · cases h
    simp
  · split at h
    · cases h
      unfold minus
      split
      · split
        · rename_i hd
          exact number_text_ne_nil hd
        · simp [single]
      · simp [single]
    · split at h
      · rename_i hd
        cases h
        exact number_text_ne_nil hd
      · split at h
        · exact character_text_ne_nil h
        · split at h
          · cases hb : stringBody 1 cs with
            | error f => simp [hb, Except.map] at h
            | ok r =>
              simp only [hb, Except.map, Except.ok.injEq] at h
              subst h
              simp
          · cases h
            unfold operator
            split <;> simp [single]

/-- What follows a token is shorter than the text before it. -/
theorem next_rest_length {c : Char} {cs : List Char} {l : Lexeme} (h : next c cs = .ok l) :
    l.rest.length < (c :: cs).length := by
  have hs := congrArg List.length (next_split h)
  have hn := List.length_pos_iff.mpr (next_text_ne_nil h)
  simp only [List.length_append] at hs
  omega

end Nonempty

end Lexeme
end BlockScript
