import BlockScript.Proofs.Token.Prefixes
import BlockScript.Proofs.Token.Tiling

/-!
# Where tokens stand

A scan keeps three counters, for the offset, the line and the column, and advances them by one
character at a time.  They stay true of the text in front of them (`Position.IsIn`): the line
is counted by the line feeds in it, and the column from the start of the line.

So the tokens of a scan stand side by side in the text, where they say that they stand, and what
is outside of them is blank (`Token.tokens_tile_text`).
-/

namespace BlockScript

open Lexeme (isBlank isEscapeLetter next)

/-- The line of an offset starts behind the last line feed in front of it, or with the text if
there is none. -/
structure IsLineStart (text : List Char) (offset start : Nat) : Prop where
  le : start ≤ offset
  behind : ∀ i, start = i + 1 → text[i]? = some '\n'
  unbroken : ∀ i, start ≤ i → i < offset → text[i]? ≠ some '\n'

namespace IsLineStart

variable {text : List Char} {i b : Nat}

theorem zero : IsLineStart text 0 0 :=
  ⟨Nat.le_refl 0, nofun, fun _ _ h => absurd h (Nat.not_lt_zero _)⟩

theorem of_feed (h : text[i]? = some '\n') : IsLineStart text (i + 1) (i + 1) := by
  refine ⟨Nat.le_refl _, fun j hj => ?_, fun j hle hlt => by omega⟩
  rw [← Nat.succ.inj hj]
  exact h

theorem step (h : IsLineStart text i b) (hi : text[i]? ≠ some '\n') :
    IsLineStart text (i + 1) b := by
  refine ⟨Nat.le_succ_of_le h.le, h.behind, fun j hle hlt => ?_⟩
  rcases Nat.lt_succ_iff_lt_or_eq.mp hlt with hlt | rfl
  · exact h.unbroken j hle hlt
  · exact hi

end IsLineStart

/-- A position counts the characters, the lines and the columns of the text in front of it. -/
structure Position.IsIn (text : List Char) (p : Position) : Prop where
  within : p.offset ≤ text.length
  line : p.line = 1 + (text.take p.offset).count '\n'
  column : ∃ b, IsLineStart text p.offset b ∧ p.column = p.offset - b + 1

namespace Position.IsIn

variable {text : List Char} {p : Position}

theorem start : Position.start.IsIn text :=
  ⟨Nat.zero_le _, rfl, 0, .zero, rfl⟩

/-- A position stays true when it goes on by the character that stands there. -/
theorem advance {c : Char} (h : p.IsIn text) (hc : text[p.offset]? = some c) :
    (p.advance c).IsIn text := by
  have hlt : p.offset < text.length := (List.getElem?_eq_some_iff.mp hc).1
  have hfront : text.take (p.offset + 1) = text.take p.offset ++ [c] := by
    rw [List.take_add_one, hc]
    rfl
  obtain ⟨b, hb, hcolumn⟩ := h.column
  have hle := hb.le
  have hline := h.line
  unfold Position.advance
  split
  · rename_i hfeed
    subst hfeed
    refine ⟨hlt, ?_, p.offset + 1, .of_feed hc, by simp⟩
    simp only [hfront, List.count_append, List.count_singleton_self]
    omega
  · rename_i hfeed
    refine ⟨hlt, ?_, b, hb.step (by simpa [hc] using hfeed), ?_⟩
    · simpa [hfront, List.count_append, hfeed] using hline
    · dsimp only
      omega

/-- A position stays true when it goes on by a piece of text that stands there. -/
theorem advanceAll {cs rest : List Char} (h : p.IsIn text)
    (hcs : text.drop p.offset = cs ++ rest) : (p.advanceAll cs).IsIn text := by
  induction cs generalizing p with
  | nil => exact h
  | cons c cs ih =>
      refine ih (h.advance (getElem?_of_drop hcs)) ?_
      rw [Position.offset_advance]
      exact drop_add_of_drop (u := [c]) hcs

end Position.IsIn

namespace Pattern

/-- The characters at which a line ends. -/
def IsLineEnd (d : Char) : Prop := d = '\n' ∨ d = '\r'

section LineEnds

variable {c d : Char} {w : List Char}

theorem isBlank_of_isLineEnd (hd : IsLineEnd d) : isBlank d = true := by
  rcases hd with rfl | rfl <;> rfl

theorem notMem_escape (hd : IsLineEnd d) (hw : w ∈ escape) : d ∉ w := by
  obtain ⟨e, he, rfl⟩ := mem_escape.mp hw
  rcases hd with rfl | rfl <;> rintro (_ | ⟨_, _ | ⟨_, ⟨⟩⟩⟩) <;> cases he

theorem notMem_character (hd : IsLineEnd d) (hw : w ∈ character) : d ∉ w := by
  obtain ⟨content, hcontent, rfl⟩ := mem_quoted.mp hw
  have hquote : d ≠ '\'' := by rcases hd with rfl | rfl <;> decide
  have hinside : d ∉ content := by
    rcases hcontent with hescape | ⟨e, he, rfl⟩
    · exact notMem_escape hd hescape
    · rcases hd with rfl | rfl <;> rintro (_ | ⟨_, ⟨⟩⟩) <;> cases he
  simp [hquote, hinside]

theorem notMem_string (hd : IsLineEnd d) (hw : w ∈ string) : d ∉ w := by
  obtain ⟨content, ⟨items, rfl, hitems⟩, rfl⟩ := mem_quoted.mp hw
  have hquote : d ≠ '"' := by rcases hd with rfl | rfl <;> decide
  have hplain : isPlainInString d = false := by
    have hprint : Text.isPrintable d = false :=
      Text.not_isPrintable_of_control (.inl (by rcases hd with rfl | rfl <;> decide))
    simp [isPlainInString, hprint]
  have hinside : d ∉ items.flatten := by
    intro hmem
    obtain ⟨item, hitem, hmem⟩ := List.mem_flatten.mp hmem
    rcases hitems item hitem with hescape | ⟨e, he, rfl⟩
    · exact notMem_escape hd hescape hmem
    · obtain rfl := List.mem_singleton.mp hmem
      rw [hplain] at he
      cases he
  simp [hquote, hinside]

/-- No token goes over the end of a line. -/
theorem notMem_of_isLineEnd {k : TokenKind} (hd : IsLineEnd d) (hc : isBlank c = false)
    (hw : c :: w ∈ ofKind k) : d ∉ c :: w := by
  by_cases hcharacter : k = .character
  · subst hcharacter
    exact notMem_character hd hw
  by_cases hstring : k = .string
  · subst hstring
    exact notMem_string hd hw
  have hblank := isBlank_of_isLineEnd hd
  have hhead : d ≠ c := by
    rintro rfl
    rw [hc] at hblank
    cases hblank
  exact fun hmem => (List.mem_cons.mp hmem).elim hhead
    (notMem_tail (isApart_of_isBlank hblank) hcharacter hstring hw)

end LineEnds
end Pattern

namespace Token

/-- A token stands in a text where it says that it stands. -/
structure StandsIn (text : List Char) (t : Token) : Prop where
  nonempty : t.start < t.stop
  within : t.stop ≤ text.length
  slice : t.text.toList = (text.take t.stop).drop t.start
  unbroken : ∀ c ∈ t.text.toList, c ≠ '\n' ∧ c ≠ '\r'
  line : t.line = 1 + (text.take t.start).count '\n'
  column : ∃ b, IsLineStart text t.start b ∧ t.column = t.start - b + 1

variable {text : List Char} {t : Token}

theorem IsCut.slice (h : t.IsCut text) : t.text.toList = (text.take t.stop).drop t.start := by
  rw [List.drop_take, h.drop_start, h.stop_eq, Nat.add_sub_cancel_left, List.take_left]

theorem IsCut.unbroken (h : t.IsCut text) : ∀ c ∈ t.text.toList, c ≠ '\n' ∧ c ≠ '\r' := by
  obtain ⟨-, hblank, hnext⟩ := h
  obtain ⟨d, w, htext⟩ := List.exists_cons_of_ne_nil (Lexeme.next_text_ne_nil hnext)
  have hmatched := (Pattern.isTokenAt_of_next hnext).matched
  have hsplit := Lexeme.next_split hnext
  rw [htext] at hmatched hsplit
  obtain ⟨rfl, -⟩ := List.cons.inj hsplit
  simp only [ofLexeme, String.toList_ofList, htext]
  intro e he
  refine ⟨?_, ?_⟩ <;> rintro rfl
  · exact Pattern.notMem_of_isLineEnd (.inl rfl) hblank hmatched he
  · exact Pattern.notMem_of_isLineEnd (.inr rfl) hblank hmatched he

end Token

namespace Tiled

variable {text : List Char} {p : Position} {ts : List Token}

/-- Along a tiling that starts where its position is true, the tokens stand where they say. -/
theorem standsIn (h : Tiled text p ts) (hp : p.IsIn text) : ∀ t ∈ ts, t.StandsIn text := by
  induction h with
  | done => exact nofun
  | blank hc _ _ ih => exact ih (hp.advance hc)
  | token hcs hc hnext _ ih =>
      have hcut := Token.IsCut.intro hcs hc hnext
      have hbehind := hp.advanceAll (hcs.trans (Lexeme.next_split hnext).symm)
      refine List.forall_mem_cons.mpr ⟨?_, ih hbehind⟩
      exact ⟨hcut.start_lt_stop, hcut.stop_le, hcut.slice, hcut.unbroken, hp.line, hp.column⟩

/-- No token of a tiling starts in front of it. -/
theorem le_start (h : Tiled text p ts) : ∀ t ∈ ts, p.offset ≤ t.start := by
  induction h with
  | done => exact nofun
  | blank _ _ _ ih =>
      intro t ht
      have hstart := ih t ht
      rw [Position.offset_advance] at hstart
      omega
  | token _ _ _ _ ih =>
      refine List.forall_mem_cons.mpr ⟨Nat.le_refl _, fun t ht => ?_⟩
      have hstart := ih t ht
      rw [Position.offset_advanceAll] at hstart
      omega

/-- Each token of a tiling ends before the next ones start. -/
theorem pairwise (h : Tiled text p ts) : ts.Pairwise fun t u => t.stop ≤ u.start := by
  induction h with
  | done => exact .nil
  | blank _ _ _ ih => exact ih
  | token _ _ _ hrest ih =>
      refine .cons (fun t ht => ?_) ih
      have hstart := hrest.le_start t ht
      rwa [Position.offset_advanceAll] at hstart

/-- What stands in no token of a tiling is blank. -/
theorem isBlank_outside (h : Tiled text p ts) {i : Nat} {c : Char} (hp : p.offset ≤ i)
    (hi : text[i]? = some c) (hout : ∀ t ∈ ts, i < t.start ∨ t.stop ≤ i) : isBlank c = true := by
  induction h with
  | done hlength =>
      rw [List.getElem?_eq_none (by omega)] at hi
      cases hi
  | blank hd hblank _ ih =>
      rcases Nat.eq_or_lt_of_le hp with rfl | hlt
      · rw [hi] at hd
        cases hd
        exact hblank
      · refine ih ?_ hout
        rw [Position.offset_advance]
        exact hlt
  | token _ _ _ _ ih =>
      obtain ⟨hhead, hout⟩ := List.forall_mem_cons.mp hout
      refine ih ?_ hout
      rw [Position.offset_advanceAll]
      exact hhead.resolve_left (Nat.not_lt_of_le hp)

end Tiled

namespace Token

/-- **Tokens tile the text.** Where a text is scanned, each token stands in it where it says,
with its own text, on its line and in its column, and does not go over the end of a line.  The
tokens are in order and do not overlap, and each character outside of them is blank. -/
theorem tokens_tile_text {source : String} {tokens : List Token}
    (h : scan source = .ok tokens) :
    (∀ t ∈ tokens, t.StandsIn source.toList) ∧
      (tokens.Pairwise fun t u => t.stop ≤ u.start) ∧
      ∀ i c, source.toList[i]? = some c → (∀ t ∈ tokens, i < t.start ∨ t.stop ≤ i) →
        c ∈ [' ', '\t', '\n', '\r', '\x08'] := by
  have htiled := Tiled.of_scan h
  refine ⟨htiled.standsIn .start, htiled.pairwise, fun i c hi hout => ?_⟩
  have hblank := htiled.isBlank_outside (Nat.zero_le _) hi hout
  simpa [isBlank, or_assoc] using hblank

/-- A numeral behind a line end and two blanks stands in the third column of the second line. -/
theorem tiled_second_line :
    scan "ab\n  75" = .ok [⟨.identifier, "ab", 0, 2, 1, 1⟩, ⟨.integer, "75", 5, 7, 2, 3⟩] ∧
      (⟨.integer, "75", 5, 7, 2, 3⟩ : Token).StandsIn "ab\n  75".toList := by
  have hscan : scan "ab\n  75" =
      .ok [⟨.identifier, "ab", 0, 2, 1, 1⟩, ⟨.integer, "75", 5, 7, 2, 3⟩] := by cbv
  exact ⟨hscan, (tokens_tile_text hscan).1 _ (by simp)⟩

end Token
end BlockScript
