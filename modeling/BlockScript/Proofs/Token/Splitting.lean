import BlockScript.Proofs.Token.Longest

/-!
# Scanning splits a text by its lexical grammar

A text splits from left to right into blanks and tokens, each of them the longest match
of its class at its place (`Splits`).  Scanning follows a split as far as it goes
(`Splits.scanFrom`), and it stops only at a quote at which no literal matches
(`Splits.of_scanFrom_error`).  So a text is scanned exactly when it splits as a whole.
-/

namespace BlockScript

open Lexeme (isBlank next)
open Pattern (IsTokenAt IsCandidate)

/-- A text splits into tokens, with blanks between them, up to a rest of it. -/
inductive Splits : List Char → List (TokenKind × List Char) → List Char → Prop
  | done {rest : List Char} : Splits rest [] rest
  | blank {c : Char} {cs rest : List Char} {ts : List (TokenKind × List Char)} :
      isBlank c = true → Splits cs ts rest → Splits (c :: cs) ts rest
  | token {c : Char} {w cs rest : List Char} {kind : TokenKind}
      {ts : List (TokenKind × List Char)} :
      isBlank c = false → IsTokenAt (c :: (w ++ cs)) kind (c :: w) → Splits cs ts rest →
      Splits (c :: (w ++ cs)) ((kind, c :: w) :: ts) rest

namespace Token

/-- What a token says apart from its place. -/
def reading (t : Token) : TokenKind × List Char := (t.kind, t.text.toList)

theorem scanFrom_blank {c : Char} (h : isBlank c = true) (p : Position) (cs : List Char) :
    scanFrom p (c :: cs) = scanFrom (p.advance c) cs := by
  rw [scanFrom, if_pos h]

theorem scanFrom_of_next {c : Char} {cs : List Char} {l : Lexeme} (h : isBlank c = false)
    (hnext : next c cs = .ok l) (p : Position) : scanFrom p (c :: cs) =
      (ofLexeme p l :: ·) <$> scanFrom (p.advanceAll l.text) l.rest := by
  rw [scanFrom, if_neg (by simp [h])]
  split
  · rename_i heq
    rw [hnext] at heq
    cases heq
  · rename_i heq
    obtain rfl : l = _ := Except.ok.inj (hnext.symm.trans heq)
    rfl

theorem scanFrom_of_next_error {c : Char} {cs : List Char} {f : LexFault} (h : isBlank c = false)
    (hnext : next c cs = .error f) (p : Position) :
    scanFrom p (c :: cs) = .error ⟨f.cause, p.offset + f.offset⟩ := by
  rw [scanFrom, if_neg (by simp [h])]
  split
  · rename_i heq
    rw [Except.error.inj (hnext.symm.trans heq)]
  · rename_i heq
    rw [hnext] at heq
    cases heq

@[simp] theorem reading_ofLexeme (p : Position) (l : Lexeme) :
    (ofLexeme p l).reading = (l.kind, l.text) := by
  simp [reading, ofLexeme]

end Token

namespace Splits

open Token

variable {cs rest : List Char} {ts : List (TokenKind × List Char)}

/-- A token that is read extends a split at its front. -/
theorem of_next {c : Char} {l : Lexeme} (hc : isBlank c = false) (hnext : next c cs = .ok l)
    (h : Splits l.rest ts rest) : Splits (c :: cs) ((l.kind, l.text) :: ts) rest := by
  have htoken := Pattern.isTokenAt_of_next hnext
  have hsplit := Lexeme.next_split hnext
  obtain ⟨d, w, htext⟩ := List.exists_cons_of_ne_nil (Lexeme.next_text_ne_nil hnext)
  rw [htext] at htoken hsplit ⊢
  obtain ⟨rfl, rfl⟩ := List.cons.inj hsplit
  exact .token hc htoken h

/-- Scanning a text that splits goes on behind its split. -/
theorem scanFrom (h : Splits cs ts rest) (p : Position) : ∃ before tokens,
    cs = before ++ rest ∧ tokens.map Token.reading = ts ∧
      Token.scanFrom p cs = (tokens ++ ·) <$> Token.scanFrom (p.advanceAll before) rest := by
  induction h generalizing p with
  | @done rest =>
      exact ⟨[], [], rfl, rfl, (id_map (Token.scanFrom p rest)).symm⟩
  | @blank c cs rest ts hc h ih =>
      obtain ⟨before, tokens, rfl, hread, hscan⟩ := ih (p.advance c)
      refine ⟨c :: before, tokens, rfl, hread, ?_⟩
      rw [scanFrom_blank hc, hscan, Position.advanceAll_cons]
  | @token c w cs rest kind ts hc htoken h ih =>
      obtain ⟨before, tokens, rfl, hread, hscan⟩ := ih (p.advanceAll (c :: w))
      have hnext := Pattern.next_of_isTokenAt htoken rfl
      refine ⟨c :: (w ++ before), ofLexeme p ⟨kind, c :: w, before ++ rest⟩ :: tokens,
        by simp, by simp [hread], ?_⟩
      rw [scanFrom_of_next hc hnext]
      dsimp only
      rw [hscan, ← List.cons_append, Position.advanceAll_append, Functor.map_map]
      rfl

/-- A text that splits as a whole is scanned. -/
theorem scanFrom_ok (h : Splits cs ts []) (p : Position) :
    ∃ tokens, Token.scanFrom p cs = .ok tokens ∧ tokens.map Token.reading = ts := by
  obtain ⟨before, tokens, -, hread, hscan⟩ := h.scanFrom p
  refine ⟨tokens, ?_, hread⟩
  rw [hscan, Token.scanFrom, ← List.append_nil tokens]
  simp [Functor.map, Except.map]

/-- A text that splits up to a malformed literal is in error there. -/
theorem scanFrom_error {c : Char} {f : LexFault} (h : Splits cs ts (c :: rest))
    (hc : isBlank c = false) (hnext : next c rest = .error f) (p : Position) :
    ∃ before, cs = before ++ c :: rest ∧
      Token.scanFrom p cs = .error ⟨f.cause, p.offset + before.length + f.offset⟩ := by
  obtain ⟨before, tokens, rfl, -, hscan⟩ := h.scanFrom p
  refine ⟨before, rfl, ?_⟩
  rw [hscan, scanFrom_of_next_error hc hnext, Position.offset_advanceAll]
  rfl

/-- Every scanned text splits as a whole. -/
theorem of_scanFrom_ok {p : Position} {tokens : List Token}
    (h : Token.scanFrom p cs = .ok tokens) : Splits cs (tokens.map Token.reading) [] := by
  fun_induction Token.scanFrom p cs generalizing tokens with
  | case1 =>
      cases h
      exact .done
  | case2 p c cs hc ih => exact .blank hc (ih h)
  | case3 => cases h
  | case4 p c cs hc l hnext ih =>
      cases hrest : Token.scanFrom (p.advanceAll l.text) l.rest with
      | error e =>
          rw [hrest] at h
          cases h
      | ok others =>
          rw [hrest] at h
          cases h
          rw [List.map_cons, reading_ofLexeme]
          exact of_next (by simpa using hc) hnext (ih hrest)

/-- A text that is not scanned splits up to a malformed literal. -/
theorem of_scanFrom_error {p : Position} {e : LexError} (h : Token.scanFrom p cs = .error e) :
    ∃ ts c rest f, Splits cs ts (c :: rest) ∧ isBlank c = false ∧ next c rest = .error f := by
  fun_induction Token.scanFrom p cs with
  | case1 => cases h
  | case2 p c cs hc ih =>
      obtain ⟨ts, d, rest, f, hsplits, hfault⟩ := ih h
      exact ⟨ts, d, rest, f, .blank hc hsplits, hfault⟩
  | case3 p c cs hc f hnext => exact ⟨[], c, cs, f, .done, by simpa using hc, hnext⟩
  | case4 p c cs hc l hnext ih =>
      cases hrest : Token.scanFrom (p.advanceAll l.text) l.rest with
      | error e' =>
          rw [hrest] at h
          cases h
          obtain ⟨ts, d, rest, f, hsplits, hfault⟩ := ih hrest
          exact ⟨_, d, rest, f, of_next (by simpa using hc) hnext hsplits, hfault⟩
      | ok others =>
          rw [hrest] at h
          cases h

end Splits

namespace Pattern

/-- Whether a literal starts at the front of a text and none matches there. -/
def IsMalformed : List Char → Prop
  | [] => False
  | q :: cs => (q = '\'' ∧ ∀ w ∈ character, ¬ w <+: q :: cs) ∨
      (q = '"' ∧ ∀ w ∈ string, ¬ w <+: q :: cs)

/-- A token cannot be read exactly at a malformed literal. -/
theorem isMalformed_iff {c : Char} {cs : List Char} :
    IsMalformed (c :: cs) ↔ ∃ f, next c cs = .error f := by
  constructor
  · intro h
    cases hnext : next c cs with
    | error f => exact ⟨f, rfl⟩
    | ok l =>
        have hl := (isTokenAt_of_next hnext).toIsCandidate
        have hkind := hl.allowed
        have hmatched := hl.matched
        rcases h with ⟨rfl, h⟩ | ⟨rfl, h⟩
        · rw [kindsAt_character, List.mem_singleton] at hkind
          rw [hkind] at hmatched
          exact absurd hl.front (h _ hmatched)
        · rw [kindsAt_string, List.mem_singleton] at hkind
          rw [hkind] at hmatched
          exact absurd hl.front (h _ hmatched)
  · rintro ⟨f, hnext⟩
    have hnone := not_isCandidate_of_next_error hnext
    rcases quote_of_next_error hnext with rfl | rfl
    · exact .inl
        ⟨rfl, fun w hw hfront => hnone .character w ⟨by simp [kindsAt_character], hw, hfront⟩⟩
    · exact .inr ⟨rfl, fun w hw hfront => hnone .string w ⟨by simp [kindsAt_string], hw, hfront⟩⟩

theorem not_isBlank_of_isMalformed {c : Char} {cs : List Char} (h : IsMalformed (c :: cs)) :
    isBlank c = false := by
  rcases h with ⟨rfl, -⟩ | ⟨rfl, -⟩ <;> rfl

end Pattern

namespace Text

theorem control_le_of_mem_printableRanges : ∀ r ∈ printableRanges, 0xA0 ≤ r.1 := by
  decide +kernel

/-- Control characters are not printable. -/
theorem not_isPrintable_of_control {c : Char}
    (h : c.toNat < 0x20 ∨ 0x7F ≤ c.toNat ∧ c.toNat < 0xA0) : isPrintable c = false := by
  unfold isPrintable
  split
  · have hlow : c.toNat < 0x20 := by omega
    simpa using hlow
  · refine List.any_eq_false.mpr fun r hr => ?_
    have hr := control_le_of_mem_printableRanges r hr
    simp only [Bool.and_eq_true, decide_eq_true_eq, not_and]
    omega

end Text

namespace Token

/-- **Scanning implements the lexical grammar with the longest match.** A text is scanned
into tokens of given kinds and texts exactly when it splits into them as a whole, and it is
in error exactly when it splits up to a character or string literal that matches nowhere.
Among the characters that a string literal may hold are no control characters. -/
theorem scan_iff_splits (source : String) :
    (∀ ts, (∃ tokens, scan source = .ok tokens ∧ tokens.map reading = ts) ↔
      Splits source.toList ts []) ∧
    ((∃ e, scan source = .error e) ↔
      ∃ ts rest, Splits source.toList ts rest ∧ Pattern.IsMalformed rest) ∧
    (∀ c : Char, c.toNat < 0x20 ∨ 0x7F ≤ c.toNat ∧ c.toNat < 0xA0 →
      Text.isPrintable c = false) := by
  refine ⟨fun ts => ⟨?_, fun h => h.scanFrom_ok .start⟩, ⟨?_, ?_⟩,
    fun c => Text.not_isPrintable_of_control⟩
  · rintro ⟨tokens, hscan, rfl⟩
    exact Splits.of_scanFrom_ok hscan
  · rintro ⟨e, hscan⟩
    obtain ⟨ts, c, rest, f, hsplits, -, hnext⟩ := Splits.of_scanFrom_error hscan
    exact ⟨ts, c :: rest, hsplits, Pattern.isMalformed_iff.mpr ⟨f, hnext⟩⟩
  · rintro ⟨ts, rest, hsplits, hmalformed⟩
    cases rest with
    | nil => exact hmalformed.elim
    | cons c rest =>
        obtain ⟨f, hnext⟩ := Pattern.isMalformed_iff.mp hmalformed
        have hblank := Pattern.not_isBlank_of_isMalformed hmalformed
        obtain ⟨before, -, hscan⟩ := hsplits.scanFrom_error hblank hnext .start
        exact ⟨_, hscan⟩

/-- A zero ends the whole part of a number, and a point before a digit starts a fraction. -/
theorem splits_zero_before_digit :
    Splits "-01.5".toList [(.integer, ['-', '0']), (.decimal, ['1', '.', '5'])] [] ∧
      Text.isPrintable '\x7f' = false :=
  ⟨((scan_iff_splits "-01.5").1 _).mp
      ⟨[⟨.integer, "-0", 0, 2, 1, 1⟩, ⟨.decimal, "1.5", 2, 5, 1, 3⟩], by cbv, by cbv⟩,
    (scan_iff_splits "-01.5").2.2 '\x7f' (.inr (by decide))⟩

end Token
end BlockScript
