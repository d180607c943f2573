import BlockScript.Proofs.Grammar.Relocation
import BlockScript.Proofs.Token.Prefixes
import BlockScript.Proofs.Token.Tiling
import Mathlib.Data.List.Chain

/-!
# Blanks between tokens

The end of a token may depend on what follows it, but not on more of it than stands in front of
the next blank: a token is cut off in the same way when the text behind it goes on as before up
to its end or up to a blank (`Along`).  So tokens of any texts can be laid in a row with blanks
between them, and the tokens of one text stay apart when the blanks between them change.
-/

namespace BlockScript

open Lexeme (isBlank)
open Pattern (IsTokenAt)

/-- A text goes on as another one does, up to its end or up to a blank. -/
def Along (after after' : List Char) : Prop :=
  ∃ x y y', after = x ++ y ∧ after' = x ++ y' ∧ ∀ b ∈ y'.head?, isBlank b = true

namespace Along

variable {after after' : List Char}

theorem of_blank (h : ∀ b ∈ after'.head?, isBlank b = true) : Along after after' :=
  ⟨[], after, after', rfl, rfl, h⟩

theorem append (h : Along after after') (u : List Char) : Along (u ++ after) (u ++ after') := by
  obtain ⟨x, y, y', rfl, rfl, hblank⟩ := h
  exact ⟨u ++ x, y, y', (List.append_assoc u x y).symm, (List.append_assoc u x y').symm, hblank⟩

end Along

namespace Token

/-- A text in which every character is blank. -/
def IsGap (s : String) : Prop := ∀ c ∈ s.toList, isBlank c = true

instance (s : String) : Decidable (IsGap s) :=
  List.decidableBAll (fun c => isBlank c = true) s.toList

/-- The text of a row of tokens: a gap, and then each token with the gap behind it. -/
def spaced : String → List (Token × String) → String
  | gap, [] => gap
  | gap, (t, behind) :: rows => gap ++ t.text ++ spaced behind rows

/-- Each token of a row is cut off in some text that the row goes along with behind it. -/
inductive Fits : List (Token × String) → Prop
  | nil : Fits []
  | cons {t : Token} {gap : String} {rows : List (Token × String)} {text : List Char} :
      t.IsCut text → Along (text.drop t.stop) (spaced gap rows).toList → Fits rows →
      Fits ((t, gap) :: rows)

end Token

namespace Splits

open Token

variable {text cs rest : List Char} {ts : List (TokenKind × List Char)} {t : Token}

theorem of_gap {gap : List Char} (hgap : ∀ c ∈ gap, isBlank c = true) (h : Splits cs ts rest) :
    Splits (gap ++ cs) ts rest := by
  induction gap with
  | nil => exact h
  | cons c gap ih =>
      obtain ⟨hc, hgap⟩ := List.forall_mem_cons.mp hgap
      exact .blank hc (ih hgap)

/-- A token that is cut off in one text is split off in every text that goes along with it. -/
theorem of_isCut (ht : t.IsCut text) (halong : Along (text.drop t.stop) cs)
    (h : Splits cs ts rest) : Splits (t.text.toList ++ cs) (t.reading :: ts) rest := by
  have hdrop := ht.drop_start
  obtain ⟨hcs, hc, hnext⟩ := ht
  have htoken := Pattern.isTokenAt_of_next hnext
  obtain ⟨d, w, htext⟩ := List.exists_cons_of_ne_nil (Lexeme.next_text_ne_nil hnext)
  obtain ⟨x, y, y', hx, rfl, hblank⟩ := halong
  rw [reading_ofLexeme]
  simp only [ofLexeme, String.toList_ofList] at hdrop hx ⊢
  rw [hcs, hx, htext] at hdrop
  obtain ⟨rfl, hdrop⟩ := List.cons.inj hdrop
  rw [htext] at htoken ⊢
  rw [hdrop] at htoken
  exact .token hc (htoken.along fun b hb => Pattern.isApart_of_isBlank (hblank b hb)) h

end Splits

namespace Token

variable {text : List Char} {before gap : String} {rows : List (Token × String)}

/-- Rows whose tokens fit where they stand are split into these tokens. -/
theorem Fits.splits (h : Fits rows) (hbefore : IsGap before) (hgaps : ∀ r ∈ rows, IsGap r.2) :
    Splits (spaced before rows).toList (rows.map fun r => r.1.reading) [] := by
  induction h generalizing before with
  | nil =>
      have hsplits : Splits (before.toList ++ []) [] [] := .of_gap hbefore .done
      rwa [List.append_nil] at hsplits
  | cons ht halong _ ih =>
      obtain ⟨hgap, hgaps⟩ := List.forall_mem_cons.mp hgaps
      rw [spaced, String.toList_append, String.toList_append, List.append_assoc]
      exact .of_gap hbefore (.of_isCut ht halong (ih hgap hgaps))

theorem Fits.scan (h : Fits rows) (hbefore : IsGap before) (hgaps : ∀ r ∈ rows, IsGap r.2) :
    ∃ tokens, scan (spaced before rows) = .ok tokens ∧
      tokens.map reading = rows.map fun r => r.1.reading :=
  (h.splits hbefore hgaps).scanFrom_ok .start

/-- A text goes along with any other one up to a gap, if the gap is not empty or ends it. -/
theorem along_gap (hgap : IsGap gap) (h : rows ≠ [] → gap ≠ "") (after : List Char) :
    Along after (spaced gap rows).toList := by
  refine .of_blank fun b hb => hgap b ?_
  rcases rows with _ | ⟨r, rows⟩
  · exact List.mem_of_mem_head? hb
  · have hne : gap.toList ≠ [] := by simpa using h (List.cons_ne_nil r rows)
    rw [spaced, String.toList_append, String.toList_append, List.append_assoc,
      List.head?_append_of_ne_nil _ hne] at hb
    exact List.mem_of_mem_head? hb

/-- Tokens of any texts fit in a row with gaps between them. -/
theorem fits_of_gaps (hcut : ∀ r ∈ rows, ∃ text, r.1.IsCut text) (hgaps : ∀ r ∈ rows, IsGap r.2)
    (hapart : rows.IsChain fun r _ => r.2 ≠ "") : Fits rows := by
  induction rows with
  | nil => exact .nil
  | cons r rows ih =>
      obtain ⟨⟨text, ht⟩, hcut⟩ := List.forall_mem_cons.mp hcut
      obtain ⟨hgap, hgaps⟩ := List.forall_mem_cons.mp hgaps
      refine .cons ht (along_gap hgap ?_ _) (ih hcut hgaps hapart.tail)
      rcases rows with _ | ⟨r', rows⟩
      · exact fun hne => absurd rfl hne
      · exact fun _ => (List.isChain_cons_cons.mp hapart).1

/-- A text goes along with the row of its tokens behind one of them, if the gap behind a token is
empty only where the next token follows at once. -/
theorem along_tokens {t : Token} (hcut : ∀ r ∈ rows, r.1.IsCut text)
    (hgaps : ∀ r ∈ (t, gap) :: rows, IsGap r.2)
    (hapart : ((t, gap) :: rows).IsChain fun r r' => r.2 = "" → r.1.stop = r'.1.start) :
    Along (text.drop t.stop) (spaced gap rows).toList := by
  induction rows generalizing t gap with
  | nil => exact along_gap (hgaps _ List.mem_cons_self) (absurd rfl) _
  | cons r rows ih =>
      obtain ⟨hr, hcut⟩ := List.forall_mem_cons.mp hcut
      obtain ⟨hgap, hgaps⟩ := List.forall_mem_cons.mp hgaps
      obtain ⟨hjoined, hapart⟩ := List.isChain_cons_cons.mp hapart
      by_cases hempty : gap = ""
      · have hrest := (ih hcut hgaps hapart).append r.1.text.toList
        rw [hjoined hempty, hr.drop_start, hempty, spaced, String.empty_append,
          String.toList_append]
        exact hrest
      · exact along_gap hgap (fun _ => hempty) _

/-- The tokens of one text fit in a row whose gaps are empty only where the next token follows
at once. -/
theorem fits_of_text (hcut : ∀ r ∈ rows, r.1.IsCut text) (hgaps : ∀ r ∈ rows, IsGap r.2)
    (hapart : rows.IsChain fun r r' => r.2 = "" → r.1.stop = r'.1.start) : Fits rows := by
  induction rows with
  | nil => exact .nil
  | cons r rows ih =>
      obtain ⟨hr, hcut⟩ := List.forall_mem_cons.mp hcut
      have halong := along_tokens hcut hgaps hapart
      exact .cons hr halong (ih hcut (List.forall_mem_cons.mp hgaps).2 hapart.tail)

theorem isCut_of_scan {source : String} {tokens : List Token} (h : Token.scan source = .ok tokens) :
    ∀ t ∈ tokens, t.IsCut source.toList :=
  (Tiled.of_scan h).isCut

/-- **Tokens are delimited by blanks.** Tokens of any texts, laid in a row with gaps between
them, are scanned again with their kinds and texts, and so is the text of one token by itself.
And a text keeps its tokens and its tree when its blanks change, as long as tokens that stand
apart stay apart. -/
theorem tokens_are_delimited_by_blanks :
    (∀ (before : String) (rows : List (Token × String)), IsGap before →
      (∀ r ∈ rows, IsGap r.2 ∧ ∃ source tokens, scan source = .ok tokens ∧ r.1 ∈ tokens) →
      (rows.IsChain fun r _ => r.2 ≠ "") →
        ∃ tokens, scan (spaced before rows) = .ok tokens ∧
          tokens.map reading = rows.map fun r => r.1.reading) ∧
    (∀ (source : String) (tokens : List Token), scan source = .ok tokens → ∀ t ∈ tokens,
      ∃ t', scan t.text = .ok [t'] ∧ t'.reading = t.reading) ∧
    ∀ (source before : String) (rows : List (Token × String)),
      scan source = .ok (rows.map Prod.fst) → IsGap before → (∀ r ∈ rows, IsGap r.2) →
      (rows.IsChain fun r r' => r.2 = "" → r.1.stop = r'.1.start) →
        (∃ tokens, scan (spaced before rows) = .ok tokens ∧
          tokens.map reading = rows.map fun r => r.1.reading) ∧
        Grammar.parseProgram (spaced before rows) = Grammar.parseProgram source := by
  refine ⟨fun before rows hbefore hrows hapart => ?_, fun source tokens hscan t ht => ?_,
    fun source before rows hscan hbefore hgaps hapart => ?_⟩
  · refine Fits.scan (fits_of_gaps (fun r hr => ?_) (fun r hr => (hrows r hr).1) hapart) hbefore
      (fun r hr => (hrows r hr).1)
    obtain ⟨source, tokens, hscan, hmem⟩ := (hrows r hr).2
    exact ⟨source.toList, isCut_of_scan hscan r.1 hmem⟩
  · have hempty : IsGap "" := by decide
    have hgaps : ∀ r ∈ [(t, "")], IsGap r.2 := List.forall_mem_singleton.mpr hempty
    have hcut : ∀ r ∈ [(t, "")], ∃ text, r.1.IsCut text :=
      List.forall_mem_singleton.mpr ⟨_, isCut_of_scan hscan t ht⟩
    obtain ⟨tokens', hscan', hread⟩ := (fits_of_gaps hcut hgaps (.singleton _)).scan hempty hgaps
    obtain ⟨t', rfl, ht'⟩ := List.map_eq_singleton_iff.mp hread
    rw [spaced, spaced, String.empty_append, String.append_empty] at hscan'
    exact ⟨t', hscan', ht'⟩
  · have hcut : ∀ r ∈ rows, r.1.IsCut source.toList :=
      fun r hr => isCut_of_scan hscan r.1 (List.mem_map_of_mem hr)
    obtain ⟨tokens, hspaced, hread⟩ := (fits_of_text hcut hgaps hapart).scan hbefore hgaps
    refine ⟨⟨tokens, hspaced, hread⟩, Grammar.parseProgram_of_readings hspaced hscan ?_⟩
    rw [hread, List.map_map]
    rfl

/-- The tokens of a declaration, with other blanks behind them than in its text. -/
def respacedDeclaration : List (Token × String) :=
  [(⟨.identifier, "VAR", 0, 3, 1, 1⟩, "\n"), (⟨.identifier, "a", 4, 5, 1, 5⟩, " "),
    (⟨.operator, "=", 5, 6, 1, 6⟩, "\t "), (⟨.integer, "-1", 6, 8, 1, 7⟩, ""),
    (⟨.operator, ";", 8, 9, 1, 9⟩, "\n")]

/-- Two tokens that would be one without a blank are scanned again, a token with its sign is
scanned by itself, and a declaration has the same tree on two lines. -/
theorem declaration_is_delimited_by_blanks :
    (∃ tokens, scan "= =" = .ok tokens ∧
      tokens.map reading = [(.operator, ['=']), (.operator, ['='])]) ∧
    (∃ t, scan "-1" = .ok [t] ∧ t.reading = (.integer, ['-', '1'])) ∧
    Grammar.parseProgram "VAR\na =\t -1;\n" = Grammar.parseProgram "VAR a=-1;" := by
  have hscan : scan "VAR a=-1;" = .ok (respacedDeclaration.map Prod.fst) := by cbv
  obtain ⟨hrows, halone, hspaced⟩ := tokens_are_delimited_by_blanks
  refine ⟨?_, ?_, ?_⟩
  · have hmark : (⟨.operator, "=", 5, 6, 1, 6⟩ : Token) ∈ respacedDeclaration.map Prod.fst := by
      decide
    refine hrows "" [(⟨.operator, "=", 5, 6, 1, 6⟩, " "), (⟨.operator, "=", 5, 6, 1, 6⟩, "")]
      (by decide) ?_ (by decide)
    intro r hr
    simp only [List.mem_cons, List.not_mem_nil, or_false] at hr
    rcases hr with rfl | rfl <;> exact ⟨by decide, _, _, hscan, hmark⟩
  · exact halone _ _ hscan ⟨.integer, "-1", 6, 8, 1, 7⟩ (by decide)
  · exact (hspaced "VAR a=-1;" "" respacedDeclaration hscan (by decide) (by decide)
      (by decide)).2

end Token
end BlockScript
