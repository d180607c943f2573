/-!
# Texts in files

A text may hold one half of a surrogate pair without the other: an escape of a tree that is
read gives one, and so does a source text that a program hands over.  Such a half is no
character.  In its place stands the private character `0xF0000` above its code unit, so that
different halves stay different.  The 2048 private characters that stand for halves are
therefore not told apart from them: a text that has one of them as itself is ordered and quoted
as if it had the half.

A text with a half can be compared and kept, and it is quoted like any character that is
not printable; it has no written form in a file.

A file may end its lines with a line feed, a carriage return or both.  Reading it turns each
of the three into one line feed.
-/

namespace BlockScript
namespace Text

/-- The distance from a half to the character that stands for it. -/
def standInOffset : Nat := 0xF0000

/-- The character that stands for the half of a code unit. -/
def standIn (unit : Nat) : Char := Char.ofNat (unit + standInOffset)

/-- Whether a character stands for a half. -/
def isHalf (c : Char) : Bool := 0xFD800 ≤ c.toNat && c.toNat ≤ 0xFDFFF

/-- The code point of a character or of the half that it stands for. -/
def codePoint (c : Char) : Nat := if isHalf c then c.toNat - standInOffset else c.toNat

/-- Whether a text can be written to a file. -/
def isWritable (s : String) : Bool := !s.toList.any isHalf

/-- The order of two rows of characters by their code points. -/
def compareChars : List Char → List Char → Ordering
  | [], [] => .eq
  | [], _ :: _ => .lt
  | _ :: _, [] => .gt
  | c :: cs, d :: ds =>
      match compare (codePoint c) (codePoint d) with
      | .eq => compareChars cs ds
      | order => order

/-- The order of two texts by their code points. -/
def compareTexts (a b : String) : Ordering := compareChars a.toList b.toList

/-- Writes each of the three line ends as a line feed. -/
def unifyNewlines : List Char → List Char
  | '\r' :: '\n' :: cs => '\n' :: unifyNewlines cs
  | '\r' :: cs => '\n' :: unifyNewlines cs
  | c :: cs => c :: unifyNewlines cs
  | [] => []

end Text
end BlockScript
