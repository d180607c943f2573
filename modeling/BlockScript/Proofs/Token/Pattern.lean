import Mathlib.Computability.Language
import BlockScript.Token.Scan

/-!
# The lexical grammar

Each kind of token has a pattern, a language over characters.  The first character of a
token says which kinds it may have, except that a minus is the sign of a number only
before a digit.  Among the words of these kinds that the text starts with, the token is
the longest one (`IsTokenAt`), and there is at most one such word (`IsTokenAt.unique`).

A backslash always starts an escape, in a character literal as well as in a string
literal.
-/

namespace BlockScript
namespace Pattern

open Computability
open Lexeme (isBlank isDigit isEscapeLetter startsIdentifier continuesIdentifier)

section Languages

/-- The words of one character. -/
def one (p : Char → Bool) : Language Char := {w | ∃ c, p c = true ∧ w = [c]}

/-- An identifier: `(@|letter)(letter|digit|_|-)*`. -/
def identifier : Language Char := one startsIdentifier * (one continuesIdentifier)∗

/-- The optional sign of a number. -/
def sign : Language Char := 1 + {['-']}

/-- A digit other than zero. -/
def isLeadingDigit (c : Char) : Bool := isDigit c && c != '0'

/-- The whole part of a number: `0|[1-9]digit*`. -/
def whole : Language Char := {['0']} + one isLeadingDigit * (one isDigit)∗

/-- The fraction of a number: `.digit+`. -/
def fraction : Language Char := {['.']} * (one isDigit * (one isDigit)∗)

/-- An escape in a literal. -/
def escape : Language Char := {['\\']} * one isEscapeLetter

/-- Whether a character stands for itself in a character literal. -/
def isPlainCharacter (c : Char) : Bool := c != '\'' && c != '\\' && c != '\n' && c != '\r'

/-- A character literal. -/
def character : Language Char := {['\'']} * (escape + one isPlainCharacter) * {['\'']}

/-- Whether a character stands for itself in a string literal. -/
def isPlainInString (c : Char) : Bool := Text.isPrintable c && c != '"' && c != '\\'

/-- A string literal. -/
def string : Language Char := {['"']} * (escape + one isPlainInString)∗ * {['"']}

/-- An operator: one of the pairs, or a single character. -/
def operator : Language Char :=
  {['=', '=']} + {['!', '=']} + {['&', '&']} + {['|', '|']} + one fun _ => true

end Languages

/-- The pattern of a kind of token. -/
def ofKind : TokenKind → Language Char
  | .identifier => identifier
  | .integer => sign * whole
  | .decimal => sign * whole * fraction
  | .character => character
  | .string => string
  | .operator => operator

/-- Whether a text starts with a number: a digit, or a minus before a digit. -/
def startsNumber (c : Char) (cs : List Char) : Bool :=
  isDigit c || (c == '-' && cs.head?.any isDigit)

/-- The kinds that the token at the front of a text may have. -/
def kindsAt : List Char → List TokenKind
  | [] => []
  | c :: cs =>
      if startsIdentifier c then [.identifier]
      else if startsNumber c cs then [.integer, .decimal]
      else if c = '\'' then [.character]
      else if c = '"' then [.string]
      else [.operator]

/-- Whether a word that the text starts with is a token for its first character. -/
structure IsCandidate (input : List Char) (kind : TokenKind) (word : List Char) : Prop where
  allowed : kind ∈ kindsAt input
  matched : word ∈ ofKind kind
  front : word <+: input

/-- Whether a word is the token at the front of a text: the longest candidate. -/
structure IsTokenAt (input : List Char) (kind : TokenKind) (word : List Char) : Prop
    extends IsCandidate input kind word where
  longest : ∀ k w, IsCandidate input k w → w.length ≤ word.length

section Words

variable {p : Char → Bool} {c : Char} {w : List Char}

theorem mem_one : w ∈ one p ↔ ∃ c, p c = true ∧ w = [c] := Iff.rfl

theorem mem_singleton {u : List Char} : w ∈ ({u} : Language Char) ↔ w = u := Iff.rfl

/-- The words over a class of characters. -/
theorem mem_star_one : w ∈ (one p)∗ ↔ ∀ c ∈ w, p c = true := by
  rw [Language.mem_kstar]
  constructor
  · rintro ⟨words, rfl, hwords⟩ c hc
    obtain ⟨u, hu, hcu⟩ := List.mem_flatten.mp hc
    obtain ⟨d, hd, rfl⟩ := hwords u hu
    rcases List.mem_singleton.mp hcu with rfl
    exact hd
  · intro h
    refine ⟨w.map fun c => [c], by simp [← List.flatMap_def], ?_⟩
    intro u hu
    obtain ⟨c, hc, rfl⟩ := List.mem_map.mp hu
    exact ⟨c, h c hc, rfl⟩

/-- A character of a first class before a word over a second one. -/
theorem mem_one_mul_star {q : Char → Bool} :
    w ∈ one p * (one q)∗ ↔ ∃ c cs, w = c :: cs ∧ p c = true ∧ ∀ d ∈ cs, q d = true := by
  rw [Language.mem_mul]
  constructor
  · rintro ⟨_, ⟨c, hc, rfl⟩, cs, hcs, rfl⟩
    exact ⟨c, cs, rfl, hc, mem_star_one.mp hcs⟩
  · rintro ⟨c, cs, rfl, hc, hcs⟩
    exact ⟨[c], ⟨c, hc, rfl⟩, cs, mem_star_one.mpr hcs, rfl⟩

theorem mem_sign : w ∈ sign ↔ w = [] ∨ w = ['-'] := Iff.rfl

theorem mem_whole : w ∈ whole ↔
    w = ['0'] ∨ ∃ c cs, w = c :: cs ∧ isLeadingDigit c = true ∧ ∀ d ∈ cs, isDigit d = true := by
  rw [whole, Language.mem_add, mem_one_mul_star, mem_singleton]

theorem mem_fraction : w ∈ fraction ↔
    ∃ c cs, w = '.' :: c :: cs ∧ isDigit c = true ∧ ∀ d ∈ cs, isDigit d = true := by
  rw [fraction, Language.mem_mul]
  constructor
  · rintro ⟨_, rfl, _, hdigits, rfl⟩
    obtain ⟨c, cs, rfl, hc, hcs⟩ := mem_one_mul_star.mp hdigits
    exact ⟨c, cs, rfl, hc, hcs⟩
  · rintro ⟨c, cs, rfl, hc, hcs⟩
    exact ⟨['.'], rfl, _, mem_one_mul_star.mpr ⟨c, cs, rfl, hc, hcs⟩, rfl⟩

theorem mem_escape : w ∈ escape ↔ ∃ e, isEscapeLetter e = true ∧ w = ['\\', e] := by
  rw [escape, Language.mem_mul]
  constructor
  · rintro ⟨_, rfl, _, ⟨e, he, rfl⟩, rfl⟩
    exact ⟨e, he, rfl⟩
  · rintro ⟨e, he, rfl⟩
    exact ⟨['\\'], rfl, [e], ⟨e, he, rfl⟩, rfl⟩

/-- A language between two quotes. -/
theorem mem_quoted {q : Char} {l : Language Char} :
    w ∈ {[q]} * l * {[q]} ↔ ∃ content ∈ l, w = q :: (content ++ [q]) := by
  rw [Language.mem_mul]
  constructor
  · rintro ⟨_, hfront, _, rfl, rfl⟩
    obtain ⟨_, rfl, content, hcontent, rfl⟩ := Language.mem_mul.mp hfront
    exact ⟨content, hcontent, rfl⟩
  · rintro ⟨content, hcontent, rfl⟩
    exact ⟨q :: content, Language.mem_mul.mpr ⟨[q], rfl, content, hcontent, rfl⟩, [q], rfl, rfl⟩

theorem mem_operator : w ∈ operator ↔
    w = ['=', '='] ∨ w = ['!', '='] ∨ w = ['&', '&'] ∨ w = ['|', '|'] ∨ ∃ c, w = [c] := by
  simp only [operator, Language.mem_add, mem_singleton, mem_one, true_and, or_assoc]

end Words

section Digits

variable {c : Char} {w : List Char}

theorem isDigit_of_isLeadingDigit (h : isLeadingDigit c = true) : isDigit c = true :=
  (Bool.and_eq_true_iff.mp h).1

theorem isDigit_of_mem_whole (h : w ∈ whole) : ∀ c ∈ w, isDigit c = true := by
  rcases mem_whole.mp h with rfl | ⟨c, cs, rfl, hc, hcs⟩
  · exact List.forall_mem_singleton.mpr rfl
  · intro d hd
    rcases List.mem_cons.mp hd with rfl | hd
    · exact isDigit_of_isLeadingDigit hc
    · exact hcs d hd

theorem ne_nil_of_mem_whole (h : w ∈ whole) : w ≠ [] := by
  rcases mem_whole.mp h with rfl | ⟨c, cs, rfl, -, -⟩ <;> exact List.cons_ne_nil _ _

theorem not_isDigit_point : isDigit '.' = false := by decide

theorem not_isDigit_minus : isDigit '-' = false := by decide

end Digits

section Uniqueness

variable {input : List Char}

/-- An integer and a decimal have no word in common, since only the second has a point. -/
theorem notMem_integer_of_decimal {w : List Char} (h : w ∈ ofKind .decimal) :
    w ∉ ofKind .integer := by
  intro hinteger
  obtain ⟨_, -, f, hfraction, rfl⟩ := Language.mem_mul.mp h
  obtain ⟨c, cs, rfl, -⟩ := mem_fraction.mp hfraction
  obtain ⟨s, hs, ds, hds, heq⟩ := Language.mem_mul.mp hinteger
  have hpoint : '.' ∈ s ++ ds := heq ▸ List.mem_append_right _ List.mem_cons_self
  rcases List.mem_append.mp hpoint with hmem | hmem
  · rcases mem_sign.mp hs with rfl | rfl <;> simp at hmem
  · exact absurd (isDigit_of_mem_whole hds _ hmem) (by decide)

/-- The kinds of a token differ only in the fraction of a number. -/
theorem kindsAt_eq (input : List Char) : kindsAt input = [] ∨
    (∃ k, kindsAt input = [k]) ∨ kindsAt input = [.integer, .decimal] := by
  unfold kindsAt
  split
  · exact .inl rfl
  · refine .inr ?_
    split
    · exact .inl ⟨_, rfl⟩
    split
    · exact .inr rfl
    split
    · exact .inl ⟨_, rfl⟩
    split <;> exact .inl ⟨_, rfl⟩

/-- A word has at most one of the kinds that a token may have. -/
theorem IsCandidate.kind_unique {k k' : TokenKind} {w : List Char} (h : IsCandidate input k w)
    (h' : IsCandidate input k' w) : k = k' := by
  have hk := h.allowed
  have hk' := h'.allowed
  rcases kindsAt_eq input with heq | ⟨k₀, heq⟩ | heq
  · rw [heq] at hk
    cases hk
  · rw [heq] at hk hk'
    exact (List.mem_singleton.mp hk).trans (List.mem_singleton.mp hk').symm
  · rw [heq] at hk hk'
    simp only [List.mem_cons, List.not_mem_nil, or_false] at hk hk'
    rcases hk with rfl | rfl <;> rcases hk' with rfl | rfl
    · rfl
    · exact absurd h.matched (notMem_integer_of_decimal h'.matched)
    · exact absurd h'.matched (notMem_integer_of_decimal h.matched)
    · rfl

/-- There is at most one token at the front of a text. -/
theorem IsTokenAt.unique {k k' : TokenKind} {w w' : List Char} (h : IsTokenAt input k w)
    (h' : IsTokenAt input k' w') : k = k' ∧ w = w' := by
  have hword : w = w' :=
    List.IsPrefix.eq_of_length_le
      (List.prefix_of_prefix_length_le h.front h'.front (h'.longest k w h.toIsCandidate))
      (h.longest k' w' h'.toIsCandidate)
  subst hword
  exact ⟨h.toIsCandidate.kind_unique h'.toIsCandidate, rfl⟩

end Uniqueness

end Pattern
end BlockScript
