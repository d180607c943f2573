import BlockScript.Proofs.Token.Prefixes
import BlockScript.Text.InFiles

/-!
# Line ends between tokens

No token has a line end in it, and a token is cut off in the same way whichever line end
follows.  So a text splits into the same tokens when its line ends are unified, and an error
in it moves to the length that the text in front of it has then.
-/

namespace BlockScript

namespace Text

section Unified

variable {cs ds : List Char} {c : Char}

theorem unifyNewlines_cons (h : c ≠ '\r') (cs : List Char) :
    unifyNewlines (c :: cs) = c :: unifyNewlines cs := by
  rw [unifyNewlines]
  · rintro _ rfl
    exact absurd rfl h
  · exact h

/-- A carriage return becomes a line feed, or stands before one. -/
theorem unifyNewlines_return (cs : List Char) :
    (∃ ds, cs = '\n' :: ds ∧ unifyNewlines ('\r' :: cs) = unifyNewlines cs) ∨
      unifyNewlines ('\r' :: cs) = '\n' :: unifyNewlines cs := by
  by_cases h : ∃ ds, cs = '\n' :: ds
  · obtain ⟨ds, rfl⟩ := h
    refine .inl ⟨ds, rfl, ?_⟩
    rw [unifyNewlines_cons (c := '\n') (by decide), unifyNewlines]
  · refine .inr ?_
    rw [unifyNewlines]
    exact fun ds heq => h ⟨ds, heq⟩

theorem not_return_of_mem_unifyNewlines (h : c ∈ unifyNewlines cs) : c ≠ '\r' := by
  fun_induction unifyNewlines cs with
  | case1 cs ih =>
      rcases List.mem_cons.mp h with rfl | h
      · decide
      · exact ih h
  | case2 cs _ ih =>
      rcases List.mem_cons.mp h with rfl | h
      · decide
      · exact ih h
  | case3 d cs _ hreturn ih =>
      rcases List.mem_cons.mp h with rfl | h
      · exact hreturn
      · exact ih h
  | case4 => cases h

/-- How unified line ends start: with the first character, unless it is a carriage return. -/
theorem unifyNewlines_head (cs : List Char) : cs = [] ∨
    (∃ ds es, cs = '\r' :: ds ∧ unifyNewlines cs = '\n' :: es) ∨
    ∃ c ds, c ≠ '\r' ∧ cs = c :: ds ∧ unifyNewlines cs = c :: unifyNewlines ds := by
  rcases cs with _ | ⟨c, ds⟩
  · exact .inl rfl
  · by_cases hc : c = '\r'
    · subst hc
      rcases unifyNewlines_return ds with ⟨es, rfl, heq⟩ | heq
      · rw [unifyNewlines_cons (c := '\n') (by decide)] at heq
        exact .inr (.inl ⟨_, _, rfl, heq⟩)
      · exact .inr (.inl ⟨_, _, rfl, heq⟩)
    · exact .inr (.inr ⟨c, ds, hc, rfl, unifyNewlines_cons hc ds⟩)

/-- A text without carriage returns stays as it is in front of another one. -/
theorem unifyNewlines_append (h : ∀ c ∈ cs, c ≠ '\r') (ds : List Char) :
    unifyNewlines (cs ++ ds) = cs ++ unifyNewlines ds := by
  induction cs with
  | nil => rfl
  | cons c cs ih =>
      obtain ⟨hc, hcs⟩ := List.forall_mem_cons.mp h
      rw [List.cons_append, unifyNewlines_cons hc, ih hcs]
      rfl

/-- Line ends are unified apart in front of a character that is no line feed and behind it. -/
theorem unifyNewlines_split (h : c ≠ '\n') (cs ds : List Char) :
    unifyNewlines (cs ++ c :: ds) = unifyNewlines cs ++ unifyNewlines (c :: ds) := by
  fun_induction unifyNewlines cs with
  | case1 cs ih =>
      rw [List.cons_append, List.cons_append, unifyNewlines, ih]
      rfl
  | case2 cs hfeed ih =>
      have hhead : ∀ es, cs ++ c :: ds ≠ '\n' :: es := by
        intro es heq
        cases cs with
        | nil => exact h (List.cons.inj heq).1
        | cons d cs => exact hfeed cs (by rw [(List.cons.inj heq).1])
      rw [List.cons_append, unifyNewlines]
      · rw [ih]
        rfl
      · exact hhead
  | case3 d cs _ hreturn ih =>
      rw [List.cons_append, unifyNewlines_cons hreturn, ih]
      rfl
  | case4 => rfl

/-- What a row of characters of one class ends with is the same under unified line ends. -/
theorem span_unifyNewlines {p : Char → Bool} (hfeed : p '\n' = false) (hreturn : p '\r' = false)
    (cs : List Char) :
    (unifyNewlines cs).takeWhile p = cs.takeWhile p ∧
      (unifyNewlines cs).dropWhile p = unifyNewlines (cs.dropWhile p) := by
  induction cs with
  | nil => exact ⟨rfl, rfl⟩
  | cons c cs ih =>
      rcases unifyNewlines_head (c :: cs) with heq | ⟨_, _, heq, hes⟩ | ⟨d, ds, -, heq, hds⟩
      · cases heq
      · obtain ⟨rfl, -⟩ := List.cons.inj heq
        simp [hes, hfeed, hreturn]
      · obtain ⟨rfl, rfl⟩ := List.cons.inj heq
        rw [hds]
        cases hp : p c <;> simp [hp, ih, hds]

end Unified
end Text

namespace Lexeme

open Text

/-- A token with the line ends behind it unified. -/
def unifyRest (l : Lexeme) : Lexeme := { l with rest := unifyNewlines l.rest }

section Lexemes

variable {cs : List Char}

theorem digits_unifyNewlines (cs : List Char) :
    (unifyNewlines cs).takeWhile isDigit = cs.takeWhile isDigit ∧
      (unifyNewlines cs).dropWhile isDigit = unifyNewlines (cs.dropWhile isDigit) :=
  span_unifyNewlines (by decide) (by decide) cs

theorem splitWhole_unifyNewlines (cs : List Char) :
    splitWhole (unifyNewlines cs) = ((splitWhole cs).1, unifyNewlines (splitWhole cs).2) := by
  have hdigits := digits_unifyNewlines cs
  rcases unifyNewlines_head cs with rfl | ⟨ds, es, rfl, hes⟩ | ⟨c, ds, -, rfl, hds⟩
  · rfl
  · rw [hes] at hdigits ⊢
    exact Prod.ext hdigits.1 hdigits.2
  · rw [hds] at hdigits ⊢
    by_cases hzero : c = '0'
    · subst hzero
      rfl
    · rw [Pattern.splitWhole_of_ne_zero hzero, Pattern.splitWhole_of_ne_zero hzero]
      exact Prod.ext hdigits.1 hdigits.2

theorem splitFraction_of_no_digit {cs : List Char}
    (h : ∀ c ds, cs = '.' :: c :: ds → isDigit c = false) : splitFraction cs = ([], cs) := by
  unfold splitFraction
  split
  · rw [if_neg (by simp [h _ _ rfl])]
  · rfl

theorem splitFraction_unifyNewlines (cs : List Char) : splitFraction (unifyNewlines cs) =
    ((splitFraction cs).1, unifyNewlines (splitFraction cs).2) := by
  by_cases h : ∃ c ds, cs = '.' :: c :: ds ∧ isDigit c = true
  · obtain ⟨c, ds, rfl, hc⟩ := h
    have hreturn : c ≠ '\r' := by
      rintro rfl
      cases hc
    obtain ⟨htake, hdrop⟩ := digits_unifyNewlines ds
    rw [unifyNewlines_cons (by decide), unifyNewlines_cons hreturn]
    simp [splitFraction, hc, htake, hdrop]
  · have hnone : ∀ c ds, cs = '.' :: c :: ds → isDigit c = false := by
      intro c ds heq
      simpa using fun hc => h ⟨c, ds, heq, hc⟩
    have hunified : ∀ c ds, unifyNewlines cs = '.' :: c :: ds → isDigit c = false := by
      intro c ds heq
      rcases unifyNewlines_head cs with rfl | ⟨_, _, rfl, hes⟩ | ⟨d, ds', -, rfl, hds⟩
      · cases heq
      · rw [hes] at heq
        cases heq
      · rw [hds] at heq
        obtain ⟨rfl, hrest⟩ := List.cons.inj heq
        rcases unifyNewlines_head ds' with rfl | ⟨_, _, rfl, hes⟩ | ⟨d', ds'', -, rfl, hds'⟩
        · cases hrest
        · rw [hes] at hrest
          obtain ⟨rfl, -⟩ := List.cons.inj hrest
          rfl
        · rw [hds'] at hrest
          obtain ⟨rfl, -⟩ := List.cons.inj hrest
          exact hnone _ _ rfl
    rw [splitFraction_of_no_digit hnone, splitFraction_of_no_digit hunified]

theorem number_unifyNewlines (sign cs : List Char) :
    number sign (unifyNewlines cs) = (number sign cs).unifyRest := by
  simp only [number, splitWhole_unifyNewlines, splitFraction_unifyNewlines]
  rfl

theorem minus_unifyNewlines (cs : List Char) :
    minus (unifyNewlines cs) = (minus cs).unifyRest := by
  have hnumber := number_unifyNewlines ['-'] cs
  rcases unifyNewlines_head cs with rfl | ⟨ds, es, rfl, hes⟩ | ⟨c, ds, -, rfl, hds⟩
  · rfl
  · simp [minus, hes, single, unifyRest, isDigit]
  · rw [hds] at hnumber ⊢
    cases hc : isDigit c
    · simp [minus, hc, single, unifyRest, hds]
    · simp [minus, hc, hnumber]

/-- Whether two characters make one operator does not depend on what follows them. -/
theorem operator_cons (c d : Char) : (∀ es, operator c (d :: es) = ⟨.operator, [c, d], es⟩) ∨
    ∀ es, operator c (d :: es) = single .operator c (d :: es) := by
  by_cases h : (c, d) ∈ [('=', '='), ('!', '='), ('&', '&'), ('|', '|')]
  · simp only [List.mem_cons, Prod.mk.injEq, List.not_mem_nil, or_false] at h
    rcases h with ⟨rfl, rfl⟩ | ⟨rfl, rfl⟩ | ⟨rfl, rfl⟩ | ⟨rfl, rfl⟩ <;> exact .inl fun _ => rfl
  · refine .inr fun es => ?_
    unfold operator
    split <;> simp_all

theorem operator_of_not_mem {c d : Char} (hd : d ∉ ['=', '&', '|']) (es : List Char) :
    operator c (d :: es) = single .operator c (d :: es) := by
  unfold operator
  split <;> simp_all

theorem operator_unifyNewlines (c : Char) (cs : List Char) :
    operator c (unifyNewlines cs) = (operator c cs).unifyRest := by
  rcases unifyNewlines_head cs with rfl | ⟨ds, es, rfl, hes⟩ | ⟨d, ds, -, rfl, hds⟩
  · have hnil : operator c [] = single .operator c [] := by
      unfold operator
      split <;> simp_all
    simp only [unifyNewlines, hnil]
    rfl
  · rw [hes, operator_of_not_mem (by decide), operator_of_not_mem (by decide), ← hes]
    rfl
  · rw [hds]
    rcases operator_cons c d with hpair | hsingle
    · rw [hpair, hpair]
      rfl
    · rw [hsingle, hsingle, ← hds]
      rfl

theorem closeCharacter_unifyNewlines (content cs : List Char) :
    closeCharacter content (unifyNewlines cs) = (closeCharacter content cs).map unifyRest := by
  rcases unifyNewlines_head cs with rfl | ⟨ds, es, rfl, hes⟩ | ⟨d, ds, -, rfl, hds⟩
  · rfl
  · rw [hes]
    rfl
  · rw [hds]
    by_cases hd : d = '\''
    · subst hd
      rfl
    · unfold closeCharacter
      split <;> simp_all [Except.map]

/-- A line end stands neither for itself in a character literal nor behind a backslash. -/
theorem character_unifyNewlines (cs : List Char) :
    character (unifyNewlines cs) = (character cs).map unifyRest := by
  rcases unifyNewlines_head cs with rfl | ⟨ds, es, rfl, hes⟩ | ⟨c, ds, -, rfl, hds⟩
  · rfl
  · rw [hes]
    rfl
  · rw [hds]
    by_cases hc : c = '\\'
    · subst hc
      rcases unifyNewlines_head ds with rfl | ⟨_, _, rfl, hes⟩ | ⟨e, ds, -, rfl, hds⟩
      · rfl
      · rw [hes]
        rfl
      · rw [hds]
        cases he : isEscapeLetter e
        · simp [character, he, Except.map]
        · simp [character, he, closeCharacter_unifyNewlines]
    · rw [Pattern.character_of_ne hc, Pattern.character_of_ne hc, closeCharacter_unifyNewlines]
      split <;> rfl

theorem stringBody_of_ne {c : Char} (hquote : c ≠ '"') (hbackslash : c ≠ '\\') (before : Nat)
    (cs : List Char) : stringBody before (c :: cs) = if Text.isPrintable c then
      (stringBody (before + 1) cs).map fun r => (c :: r.1, r.2)
    else .error ⟨.unterminatedString, before⟩ := by
  rw [stringBody]
  · exact hquote
  · exact fun _ _ h _ => hbackslash h
  · exact fun h _ => hbackslash h

/-- A line end in a string literal leaves it open, and none may follow a backslash. -/
theorem stringBody_unifyNewlines (before : Nat) (cs : List Char) :
    stringBody before (unifyNewlines cs) =
      (stringBody before cs).map fun r => (r.1, unifyNewlines r.2) := by
  fun_induction stringBody before cs with
  | case1 before rest =>
      rw [unifyNewlines_cons (by decide)]
      rfl
  | case2 before e cs he ih =>
      have hreturn : e ≠ '\r' := by
        rintro rfl
        cases he
      rw [unifyNewlines_cons (by decide), unifyNewlines_cons hreturn]
      simp only [stringBody, he, if_true, ih]
      cases stringBody (before + 2) cs <;> rfl
  | case3 before e cs he =>
      rw [unifyNewlines_cons (by decide)]
      rcases unifyNewlines_head (e :: cs) with heq | ⟨_, _, heq, hes⟩ | ⟨d, ds, -, heq, hds⟩
      · cases heq
      · rw [hes]
        rfl
      · obtain ⟨rfl, rfl⟩ := List.cons.inj heq
        rw [hds]
        simp [stringBody, he, Except.map]
  | case4 before => rfl
  | case5 before c cs hquote hescape hlone hp ih =>
      have hreturn : c ≠ '\r' := by
        rintro rfl
        cases hp
      rw [unifyNewlines_cons hreturn,
        stringBody_of_ne hquote (Pattern.ne_backslash hescape hlone), if_pos hp, ih]
      cases stringBody (before + 1) cs <;> rfl
  | case6 before c cs hquote hescape hlone hp =>
      rcases unifyNewlines_head (c :: cs) with heq | ⟨_, _, -, hes⟩ | ⟨d, ds, -, heq, hds⟩
      · cases heq
      · rw [hes]
        rfl
      · obtain ⟨rfl, rfl⟩ := List.cons.inj heq
        rw [hds, stringBody_of_ne hquote (Pattern.ne_backslash hescape hlone), if_neg hp]
        rfl
  | case7 before => rfl

theorem continuesIdentifier_unifyNewlines (cs : List Char) :
    (unifyNewlines cs).takeWhile continuesIdentifier = cs.takeWhile continuesIdentifier ∧
      (unifyNewlines cs).dropWhile continuesIdentifier =
        unifyNewlines (cs.dropWhile continuesIdentifier) :=
  span_unifyNewlines (by decide) (by decide) cs

/-- A token is cut off, or a literal is in error, in the same way under unified line ends. -/
theorem next_unifyNewlines (c : Char) (cs : List Char) :
    next c (unifyNewlines cs) = (next c cs).map unifyRest := by
  unfold next
  split
  · obtain ⟨htake, hdrop⟩ := continuesIdentifier_unifyNewlines cs
    rw [htake, hdrop]
    rfl
  split
  · rw [minus_unifyNewlines]
    rfl
  split
  · rename_i hdigit
    have hreturn : c ≠ '\r' := by
      rintro rfl
      cases hdigit
    rw [← unifyNewlines_cons hreturn, number_unifyNewlines]
    rfl
  split
  · exact character_unifyNewlines cs
  split
  · rw [stringBody_unifyNewlines]
    cases stringBody 1 cs <;> rfl
  · rw [operator_unifyNewlines]
    rfl

/-- A token stands in front of unified line ends as it is. -/
theorem unifyNewlines_of_next {c : Char} {l : Lexeme} (h : next c cs = .ok l) :
    l.text ++ unifyNewlines l.rest = c :: unifyNewlines cs := by
  refine next_split (l := l.unifyRest) ?_
  rw [next_unifyNewlines, h]
  rfl

end Lexemes
end Lexeme

namespace Splits

open Text Lexeme

variable {cs rest : List Char} {ts : List (TokenKind × List Char)}

/-- A text splits into the same tokens under unified line ends. -/
theorem unifyNewlines (h : Splits cs ts rest) :
    Splits (Text.unifyNewlines cs) ts (Text.unifyNewlines rest) := by
  induction h with
  | done => exact .done
  | @blank c cs rest ts hc h ih =>
      by_cases hreturn : c = '\r'
      · subst hreturn
        rcases unifyNewlines_return cs with ⟨_, -, heq⟩ | heq
        · rw [heq]
          exact ih
        · rw [heq]
          exact .blank (by decide) ih
      · rw [unifyNewlines_cons hreturn]
        exact .blank hc ih
  | @token c w cs rest kind ts hc htoken h ih =>
      have hreturn : c ≠ '\r' := by
        rintro rfl
        cases hc
      have hnext := Pattern.next_of_isTokenAt htoken rfl
      rw [unifyNewlines_cons hreturn]
      exact of_next hc (by rw [next_unifyNewlines, hnext]; rfl) ih

end Splits

/-- The error in the contents of a file with given characters: its index counts the
characters in front of it with their line ends unified. -/
def LexError.inFile (cs : List Char) (e : LexError) : LexError :=
  ⟨e.cause, (Text.unifyNewlines (cs.take e.index)).length⟩

namespace Token

open Text Lexeme

/-- A literal that is in error has no carriage return in front of the error. -/
theorem unifyNewlines_of_next_error {q : Char} {cs : List Char} {f : LexFault}
    (h : next q cs = .error f) :
    ∃ x y, cs = x ++ y ∧ f.offset = 1 + x.length ∧ unifyNewlines (q :: x) = q :: x := by
  obtain ⟨x, y, rfl, hoffset, ⟨more, l, hmore, hrest⟩, -⟩ := next_rejects h
  refine ⟨x, y, rfl, hoffset, ?_⟩
  have htext : unifyNewlines (x ++ more) = x ++ more := by
    have hsplit := next_split hmore
    have hunified := unifyNewlines_of_next hmore
    rw [hrest] at hsplit hunified
    exact (List.cons.inj (hunified.symm.trans hsplit)).2
  have hx : ∀ c ∈ x, c ≠ '\r' := fun c hc =>
    not_return_of_mem_unifyNewlines (htext ▸ List.mem_append_left more hc)
  have hq : q ≠ '\r' := by
    rcases Pattern.quote_of_next_error h with rfl | rfl <;> decide
  simpa [unifyNewlines] using unifyNewlines_append (List.forall_mem_cons.mpr ⟨hq, hx⟩) []

/-- A text is scanned to the same tokens under unified line ends, or with the same error, whose
index counts the unified characters in front of it. -/
theorem scanFrom_unifyNewlines (cs : List Char) :
    (scanFrom .start (unifyNewlines cs)).map (List.map reading) =
      ((scanFrom .start cs).map (List.map reading)).mapError (·.inFile cs) := by
  cases hscan : scanFrom .start cs with
  | ok tokens =>
      have hsplits := (Splits.of_scanFrom_ok hscan).unifyNewlines
      obtain ⟨tokens', hscan', hread⟩ := hsplits.scanFrom_ok .start
      rw [hscan']
      exact congrArg Except.ok hread
  | error e =>
      obtain ⟨ts, q, rest, f, hsplits, hblank, hnext⟩ := Splits.of_scanFrom_error hscan
      obtain ⟨before, rfl, he⟩ := hsplits.scanFrom_error hblank hnext .start
      obtain rfl := Except.error.inj (hscan.symm.trans he)
      have hfeed : q ≠ '\n' := by
        rcases Pattern.quote_of_next_error hnext with rfl | rfl <;> decide
      have hreturn : q ≠ '\r' := by
        rcases Pattern.quote_of_next_error hnext with rfl | rfl <;> decide
      have hunified := hsplits.unifyNewlines
      rw [unifyNewlines_split hfeed, unifyNewlines_cons hreturn] at hunified ⊢
      have hnext' : next q (unifyNewlines rest) = .error f := by
        rw [next_unifyNewlines, hnext]
        rfl
      rw [scanFrom_error_behind hunified hblank hnext']
      obtain ⟨x, y, rfl, hoffset, hx⟩ := unifyNewlines_of_next_error hnext
      have htake : (before ++ q :: (x ++ y)).take (before.length + f.offset) =
          before ++ q :: x := by
        rw [hoffset, Nat.add_comm 1, List.take_length_add_append]
        simp
      have hindex : (Position.start.offset + before.length + f.offset) =
          before.length + f.offset := by
        simp [Position.start]
      simp only [Except.map, Except.mapError, LexError.inFile, hindex, htake]
      rw [unifyNewlines_split hfeed, hx, List.length_append, List.length_cons, hoffset,
        Nat.add_comm 1]

end Token
end BlockScript
