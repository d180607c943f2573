import BlockScript.Proofs.Grammar.Derivation

/-!
# What rules read

A rule reads a result from a row of tokens when it succeeds on the row, wherever the row
stands, and leaves the rest.  Reading composes along chains of rules.  The rules for
single tokens succeed exactly where the terminals of the grammar derive.
-/

namespace BlockScript

namespace Rule

variable {α β : Type}

/-- A rule succeeds on a row of tokens with a result and a rest. -/
def Reads (r : Rule α) (ts : List Token) (a : α) (rest : List Token) : Prop :=
  ∀ p, ∃ q, r ⟨p, ts⟩ = .ok (a, ⟨q, rest⟩)

theorem Reads.bind {r : Rule α} {next : α → Rule β} {ts mid rest : List Token} {a : α} {b : β}
    (h : r.Reads ts a mid) (hnext : (next a).Reads mid b rest) :
    (r >>= next).Reads ts b rest := by
  intro p
  obtain ⟨p₁, h₁⟩ := h p
  obtain ⟨p₂, h₂⟩ := hnext p₁
  exact ⟨p₂, bind_eq_ok.mpr ⟨a, _, h₁, h₂⟩⟩

theorem reads_pure (a : α) (ts : List Token) : (pure a : Rule α).Reads ts a ts :=
  fun p => ⟨p, rfl⟩

/-- A chain that starts by looking at the cursor reads what the chain for that cursor
reads. -/
theorem reads_cursor {next : Cursor → Rule β} {ts rest : List Token} {b : β}
    (h : ∀ p, (next ⟨p, ts⟩).Reads ts b rest) : (cursor >>= next).Reads ts b rest := by
  intro p
  obtain ⟨q, hq⟩ := h p p
  exact ⟨q, bind_eq_ok.mpr ⟨_, _, rfl, hq⟩⟩

theorem reads_skip (t : Token) (ts : List Token) : skip.Reads (t :: ts) () ts :=
  fun p => ⟨p + 1, rfl⟩

end Rule

namespace Grammar

open BlockScript.Grammar.Derivation

/-- The first token, if there is one, has none of some texts. -/
def Avoids (texts : List String) (ts : List Token) : Prop :=
  ∀ t ∈ ts.head?, t.text ∉ texts

theorem Avoids.mono {texts texts' : List String} {ts : List Token} (h : Avoids texts ts)
    (hsub : texts' ⊆ texts) : Avoids texts' ts :=
  fun t ht hmem => h t ht (hsub hmem)

namespace Derivation

theorem Terminal.avoids {s : String} {ts rest : List Token} (h : Terminal s ts rest)
    {texts : List String} (hs : s ∉ texts) : Avoids texts ts := by
  obtain ⟨ht⟩ := h
  intro t' ht'
  cases ht'
  rwa [ht]

end Derivation

section Tokens

theorem expectAs_eq_ok {p : TokenPattern} {what : String} {c c' : Cursor} {t : Token} :
    Rule.expectAs p what c = .ok (t, c') ↔
      c.rest = t :: c'.rest ∧ c'.position = c.position + 1 ∧ p.fits t = true := by
  obtain ⟨n, ts⟩ := c
  obtain ⟨n', ts'⟩ := c'
  cases ts with
  | nil =>
      simp [Rule.expectAs]
  | cons t' rest =>
      by_cases ht : p.fits t' = true
      · simp only [Rule.expectAs, ht, if_true, Except.ok.injEq, Prod.mk.injEq,
          Cursor.mk.injEq, List.cons.injEq]
        grind
      · simp only [Rule.expectAs, ht, List.cons.injEq]
        grind

theorem terminal_of_expectText {s : String} {c c' : Cursor} {u : Unit}
    (h : Rule.expectText s c = .ok (u, c')) : Terminal s c.rest c'.rest := by
  obtain ⟨t, c₁, h₁, h₂⟩ := Rule.bind_eq_ok.mp h
  cases h₂
  obtain ⟨hr, _, ht⟩ := expectAs_eq_ok.mp h₁
  rw [hr]
  exact .intro (by simpa [TokenPattern.fits] using ht)

theorem reads_expectText {s : String} {ts rest : List Token} (h : Terminal s ts rest) :
    (Rule.expectText s).Reads ts () rest := by
  obtain ⟨ht⟩ := h
  intro p
  have h₁ : Rule.expectAs (.text s) (TokenPattern.text s).description ⟨p, _ :: rest⟩ =
      .ok (_, ⟨p + 1, rest⟩) :=
    expectAs_eq_ok.mpr ⟨rfl, rfl, by simpa [TokenPattern.fits] using ht⟩
  exact ⟨p + 1, Rule.bind_eq_ok.mpr ⟨_, _, h₁, rfl⟩⟩

/-- Accepting a text passes its token, or changes nothing where the text does not stand. -/
theorem acceptText_eq_ok {s : String} {c c' : Cursor} {b : Bool}
    (h : Rule.acceptText s c = .ok (b, c')) :
    (b = true ∧ Terminal s c.rest c'.rest) ∨ (b = false ∧ c = c' ∧ Avoids [s] c.rest) := by
  obtain ⟨n, ts⟩ := c
  cases ts with
  | nil =>
      cases h
      exact Or.inr ⟨rfl, rfl, by simp [Avoids]⟩
  | cons t rest =>
      by_cases ht : t.text = s
      · left
        simp [Rule.acceptText, Rule.accept, Cursor.seesAll, Cursor.sees, TokenPattern.fits,
          ht] at h
        obtain ⟨rfl, rfl⟩ := h
        exact ⟨rfl, .intro ht⟩
      · right
        simp [Rule.acceptText, Rule.accept, Cursor.seesAll, Cursor.sees, TokenPattern.fits,
          ht] at h
        obtain ⟨rfl, rfl⟩ := h
        exact ⟨rfl, rfl, by simpa [Avoids] using ht⟩

theorem reads_acceptText {s : String} {ts rest : List Token} (h : Terminal s ts rest) :
    (Rule.acceptText s).Reads ts true rest := by
  obtain ⟨ht⟩ := h
  intro p
  refine ⟨p + 1, ?_⟩
  simp [Rule.acceptText, Rule.accept, Cursor.seesAll, Cursor.sees, TokenPattern.fits, ht]

theorem reads_acceptText_false {s : String} {ts : List Token} (h : Avoids [s] ts) :
    (Rule.acceptText s).Reads ts false ts := by
  intro p
  refine ⟨p, ?_⟩
  cases ts with
  | nil =>
      rfl
  | cons t rest =>
      have ht : t.text ≠ s := by simpa [Avoids] using h
      simp [Rule.acceptText, Rule.accept, Cursor.seesAll, Cursor.sees, TokenPattern.fits, ht]

/-- Looking at the next token says whether it has a text. -/
theorem sees_text_iff {s : String} {c : Cursor} :
    c.sees (.text s) = true ↔ ∃ rest, Terminal s c.rest rest := by
  obtain ⟨n, ts⟩ := c
  cases ts with
  | nil =>
      simp only [Cursor.sees, Bool.false_eq_true, false_iff]
      rintro ⟨rest, h⟩
      cases h
  | cons t rest =>
      simp only [Cursor.sees, TokenPattern.fits, beq_iff_eq]
      exact ⟨fun ht => ⟨rest, .intro ht⟩, fun ⟨_, h⟩ => by cases h; assumption⟩

theorem sees_text_eq_false {s : String} {p : Nat} {ts : List Token} (h : Avoids [s] ts) :
    (⟨p, ts⟩ : Cursor).sees (.text s) = false := by
  cases ts with
  | nil =>
      rfl
  | cons t rest =>
      have ht : t.text ≠ s := by simpa [Avoids] using h
      simpa [Cursor.sees, TokenPattern.fits] using ht

theorem reads_sees {s : String} {ts rest : List Token} (h : Terminal s ts rest) :
    (Rule.sees (.text s)).Reads ts true ts := by
  intro p
  have hsees : (⟨p, ts⟩ : Cursor).sees (.text s) = true := sees_text_iff.mpr ⟨rest, h⟩
  exact ⟨p, by rw [Rule.sees, hsees]⟩

theorem reads_sees_false {s : String} {ts : List Token} (h : Avoids [s] ts) :
    (Rule.sees (.text s)).Reads ts false ts := by
  intro p
  exact ⟨p, by rw [Rule.sees, sees_text_eq_false h]⟩

section Names

variable {allowed : String → Prop}

theorem identifier_of_identifier {what x : String} {c c' : Cursor}
    (h : Rule.identifier what c = .ok (x, c')) (hx : allowed x) :
    Identifier allowed c.rest x c'.rest := by
  obtain ⟨t, c₁, h₁, h₂⟩ := Rule.bind_eq_ok.mp h
  cases h₂
  obtain ⟨hr, _, ht⟩ := expectAs_eq_ok.mp h₁
  rw [hr]
  exact .intro (by simpa [TokenPattern.fits] using ht) hx

theorem reads_identifier {what x : String} {ts rest : List Token}
    (h : Identifier allowed ts x rest) : (Rule.identifier what).Reads ts x rest := by
  obtain ⟨hk, _⟩ := h
  intro p
  have h₁ : Rule.expectAs (.kind .identifier) what ⟨p, _ :: rest⟩ = .ok (_, ⟨p + 1, rest⟩) :=
    expectAs_eq_ok.mpr ⟨rfl, rfl, by simpa [TokenPattern.fits] using hk⟩
  exact ⟨p + 1, Rule.bind_eq_ok.mpr ⟨_, _, h₁, rfl⟩⟩

theorem optionalType_of_optionalType {type : Option String} {c c' : Cursor}
    (h : Rule.optionalType c = .ok (type, c'))
    (htype : ∀ x, Name.ofText? type = Name.ofText x → allowed x) :
    OptionalType allowed c.rest type c'.rest := by
  obtain ⟨b, c₁, h₁, h₂⟩ := Rule.bind_eq_ok.mp h
  rcases acceptText_eq_ok h₁ with ⟨rfl, hcolon⟩ | ⟨rfl, rfl, _⟩
  · obtain ⟨x, c₂, hx, h₃⟩ := Rule.bind_eq_ok.mp h₂
    cases h₃
    exact .some hcolon (identifier_of_identifier hx (htype x rfl))
  · cases h₂
    exact .none

/-- An optional type is read up to a token that is no colon. -/
theorem reads_optionalType {type : Option String} {ts rest : List Token}
    (h : OptionalType allowed ts type rest) (hrest : Avoids [":"] rest) :
    Rule.optionalType.Reads ts type rest := by
  cases h with
  | none =>
      exact (reads_acceptText_false hrest).bind (Rule.reads_pure _ _)
  | some hcolon hx =>
      exact (reads_acceptText hcolon).bind ((reads_identifier hx).bind (Rule.reads_pure _ _))

end Names

end Tokens

end Grammar
end BlockScript
