import BlockScript.Proofs.Token.Splitting

/-!
# The pieces of quoted literals

The text between the quotes of a literal is a row of pieces: characters that stand for
themselves, and escapes of two characters.  The scanner steps over one piece after the other
(`Lexeme.stringBody_piece`), and a text has at most one row of pieces (`Piece.eq_of_texts_eq`).

Decoding finds its escapes in the text anew, from left to right.  It cuts the text at the same
places, since no piece but an escape starts with a backslash: what it gives are the decoded
pieces in their order (`unescape_pieces`).
-/

namespace BlockScript

open Lexeme (isEscapeLetter stringBody)

namespace QuotedKind

/-- The quote around literals of a kind. -/
def quote : QuotedKind → Char
  | character => '\''
  | string => '"'

/-- The kind of the tokens of literals. -/
def tokenKind : QuotedKind → TokenKind
  | character => .character
  | string => .string

/-- Whether a character stands for itself in literals of a kind. -/
def isPlain : QuotedKind → Char → Bool
  | character => Pattern.isPlainCharacter
  | string => Pattern.isPlainInString

variable {kind : QuotedKind} {c : Char}

theorem ne_of_isPlain (h : kind.isPlain c = true) : c ≠ '\\' ∧ c ≠ kind.quote := by
  cases kind with
  | character =>
      simp only [isPlain, Pattern.isPlainCharacter, Bool.and_eq_true, bne_iff_ne] at h
      exact ⟨h.1.1.2, h.1.1.1⟩
  | string =>
      simp only [isPlain, Pattern.isPlainInString, Bool.and_eq_true, bne_iff_ne] at h
      exact ⟨h.2, h.1.2⟩

end QuotedKind

/-- A piece of a literal: a character that stands for itself, or an escape. -/
inductive Piece
  | plain (c : Char)
  | escape (letter : Char)
deriving DecidableEq

namespace Piece

/-- The text of a piece. -/
def text : Piece → List Char
  | plain c => [c]
  | escape letter => ['\\', letter]

/-- The character that a piece denotes. -/
def decoded : Piece → Char
  | plain c => c
  | escape letter => (Literal.decodeEscape? letter).getD letter

/-- Whether a piece may stand in literals of a kind. -/
def Fits (kind : QuotedKind) : Piece → Prop
  | plain c => kind.isPlain c = true
  | escape letter => isEscapeLetter letter = true

variable {kind : QuotedKind} {p : Piece} {ps qs : List Piece} {cs ds : List Char}

/-- Two texts that start with fitting pieces are the same only where the pieces are. -/
theorem eq_of_append_eq {q : Piece} (hp : p.Fits kind) (hq : q.Fits kind)
    (h : p.text ++ cs = q.text ++ ds) : p = q ∧ cs = ds := by
  cases p with
  | plain c =>
      cases q with
      | plain d =>
          obtain ⟨rfl, rfl⟩ := List.cons.inj h
          exact ⟨rfl, rfl⟩
      | escape e => exact absurd (List.cons.inj h).1 (QuotedKind.ne_of_isPlain hp).1
  | escape e =>
      cases q with
      | plain d => exact absurd (List.cons.inj h).1.symm (QuotedKind.ne_of_isPlain hq).1
      | escape e' =>
          obtain ⟨-, htail⟩ := List.cons.inj h
          obtain ⟨rfl, rfl⟩ := List.cons.inj htail
          exact ⟨rfl, rfl⟩

theorem text_ne_nil (p : Piece) : p.text ≠ [] := by
  cases p <;> exact List.cons_ne_nil _ _

/-- A text is cut into fitting pieces in one way only. -/
theorem eq_of_texts_eq (hps : ∀ p ∈ ps, p.Fits kind) (hqs : ∀ q ∈ qs, q.Fits kind)
    (h : ps.flatMap text = qs.flatMap text) : ps = qs := by
  induction ps generalizing qs with
  | nil =>
      cases qs with
      | nil => rfl
      | cons q qs =>
          exact absurd (List.append_eq_nil_iff.mp h.symm).1 q.text_ne_nil
  | cons p ps ih =>
      cases qs with
      | nil => exact absurd (List.append_eq_nil_iff.mp h).1 p.text_ne_nil
      | cons q qs =>
          obtain ⟨hp, hps⟩ := List.forall_mem_cons.mp hps
          obtain ⟨hq, hqs'⟩ := List.forall_mem_cons.mp hqs
          obtain ⟨rfl, htexts⟩ := eq_of_append_eq hp hq h
          exact congrArg _ (ih hps hqs' htexts)

end Piece

namespace Literal

variable {kind : QuotedKind}

theorem exists_decodeEscape? {letter : Char} (h : isEscapeLetter letter = true) :
    ∃ c, decodeEscape? letter = some c := by
  simp only [isEscapeLetter, Bool.or_eq_true, decide_eq_true_eq] at h
  rcases h with (((((rfl | rfl) | rfl) | rfl) | rfl) | rfl) | rfl <;> exact ⟨_, rfl⟩

/-- Decoding a text decodes the piece at its front, and then what is behind it. -/
theorem unescape_piece {p : Piece} (hp : p.Fits kind) (cs : List Char) :
    unescape (p.text ++ cs) = p.decoded :: unescape cs := by
  cases p with
  | plain c =>
      rw [Piece.text, List.singleton_append, unescape]
      · rfl
      · exact fun e es hc => absurd hc (QuotedKind.ne_of_isPlain hp).1
  | escape letter =>
      obtain ⟨c, hc⟩ := exists_decodeEscape? hp
      rw [Piece.text, List.cons_append, List.singleton_append, unescape, hc, Piece.decoded, hc]
      rfl

theorem unescape_pieces {ps : List Piece} (hps : ∀ p ∈ ps, p.Fits kind) :
    unescape (ps.flatMap Piece.text) = ps.map Piece.decoded := by
  induction ps with
  | nil => rw [List.flatMap_nil, unescape, List.map_nil]
  | cons p ps ih =>
      obtain ⟨hp, hps⟩ := List.forall_mem_cons.mp hps
      rw [List.flatMap_cons, unescape_piece hp, ih hps, List.map_cons]

end Literal

namespace Lexeme

/-- The scanner steps over a piece of a string literal as a whole. -/
theorem stringBody_piece {p : Piece} (hp : p.Fits .string) (before : Nat) (cs : List Char) :
    stringBody before (p.text ++ cs) =
      (stringBody (before + p.text.length) cs).map fun r => (p.text ++ r.1, r.2) := by
  cases p with
  | plain c =>
      simp only [Piece.Fits, QuotedKind.isPlain, Pattern.isPlainInString, Bool.and_eq_true,
        bne_iff_ne] at hp
      obtain ⟨⟨hprint, hquote⟩, hbackslash⟩ := hp
      simp [Piece.text, stringBody, hprint, hbackslash]
  | escape letter =>
      have hletter : isEscapeLetter letter = true := hp
      simp [Piece.text, stringBody, hletter]

end Lexeme

end BlockScript
