import BlockScript.Token.Scan

/-!
# Scanning lays tokens side by side

A scan goes over its text once, from left to right: it steps over a blank or cuts a token off,
and goes on where that ended (`Tiled`).  So whatever holds of each token that is cut off, and of
each blank that is stepped over, can be collected along the tiling of the whole text.

Every token of a scan is cut off where it stands (`Token.IsCut`).
-/

namespace BlockScript

open Lexeme (isBlank next)

section Drops

variable {α : Type} {text : List α} {i : Nat}

theorem getElem?_of_drop {a : α} {as : List α} (h : text.drop i = a :: as) :
    text[i]? = some a := by
  rw [← List.head?_drop, h, List.head?_cons]

theorem drop_add_of_drop {u v : List α} (h : text.drop i = u ++ v) :
    text.drop (i + u.length) = v := by
  rw [← List.drop_drop, h, List.drop_left]

end Drops

/-- From a position on, a text is covered by blanks and by tokens as they are cut off. -/
inductive Tiled (text : List Char) : Position → List Token → Prop
  | done {p : Position} : text.length ≤ p.offset → Tiled text p []
  | blank {p : Position} {c : Char} {ts : List Token} : text[p.offset]? = some c →
      isBlank c = true → Tiled text (p.advance c) ts → Tiled text p ts
  | token {p : Position} {c : Char} {cs : List Char} {l : Lexeme} {ts : List Token} :
      text.drop p.offset = c :: cs → isBlank c = false → next c cs = .ok l →
      Tiled text (p.advanceAll l.text) ts → Tiled text p (Token.ofLexeme p l :: ts)

namespace Token

/-- A token is what is cut off at its start. -/
inductive IsCut (text : List Char) : Token → Prop
  | intro {p : Position} {c : Char} {cs : List Char} {l : Lexeme} :
      text.drop p.offset = c :: cs → isBlank c = false → next c cs = .ok l →
      IsCut text (ofLexeme p l)

variable {text : List Char} {t : Token}

/-- The text behind the start of a token is its own text and what is left behind it. -/
theorem IsCut.drop_start (h : t.IsCut text) :
    text.drop t.start = t.text.toList ++ text.drop t.stop := by
  obtain ⟨hcs, -, hnext⟩ := h
  have hsplit := Lexeme.next_split hnext
  have hrest := drop_add_of_drop (hcs.trans hsplit.symm)
  simp only [ofLexeme, String.toList_ofList]
  rw [hrest, hcs, hsplit]

theorem IsCut.start_lt_stop (h : t.IsCut text) : t.start < t.stop := by
  obtain ⟨-, -, hnext⟩ := h
  have hlength := List.length_pos_iff.mpr (Lexeme.next_text_ne_nil hnext)
  simp only [ofLexeme]
  omega

theorem IsCut.stop_eq (h : t.IsCut text) : t.stop = t.start + t.text.toList.length := by
  obtain ⟨-, -, -⟩ := h
  simp [ofLexeme]

theorem IsCut.stop_le (h : t.IsCut text) : t.stop ≤ text.length := by
  have hlength := congrArg List.length h.drop_start
  have hlt := h.start_lt_stop
  have hstop := h.stop_eq
  simp only [List.length_append, List.length_drop] at hlength
  omega

end Token

namespace Tiled

variable {text : List Char} {p : Position} {ts : List Token}

/-- The tokens of a scan tile the text behind the position that it starts from. -/
theorem of_scanFrom {cs : List Char} (hcs : text.drop p.offset = cs)
    (h : Token.scanFrom p cs = .ok ts) : Tiled text p ts := by
  fun_induction Token.scanFrom p cs generalizing ts with
  | case1 =>
      cases h
      exact .done (List.drop_eq_nil_iff.mp hcs)
  | case2 p c cs hc ih =>
      refine .blank (getElem?_of_drop hcs) hc (ih ?_ h)
      rw [Position.offset_advance]
      exact drop_add_of_drop (u := [c]) hcs
  | case3 => cases h
  | case4 p c cs hc l hnext ih =>
      cases hrest : Token.scanFrom (p.advanceAll l.text) l.rest with
      | error e =>
          rw [hrest] at h
          cases h
      | ok others =>
          rw [hrest] at h
          cases h
          refine .token hcs (by simpa using hc) hnext (ih ?_ hrest)
          rw [Position.offset_advanceAll]
          exact drop_add_of_drop (hcs.trans (Lexeme.next_split hnext).symm)

theorem of_scan {source : String} (h : Token.scan source = .ok ts) :
    Tiled source.toList .start ts :=
  of_scanFrom rfl h

theorem isCut (h : Tiled text p ts) : ∀ t ∈ ts, t.IsCut text := by
  induction h with
  | done => exact nofun
  | blank _ _ _ ih => exact ih
  | token hcs hc hnext _ ih => exact List.forall_mem_cons.mpr ⟨.intro hcs hc hnext, ih⟩

end Tiled
end BlockScript
