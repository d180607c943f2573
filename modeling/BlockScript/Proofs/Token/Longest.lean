import BlockScript.Proofs.Grammar.Spelling
import BlockScript.Proofs.Token.Pattern

/-!
# Reading a token finds the longest match

For each class of tokens, what `Lexeme.next` reads matches the pattern of its kind, and
every other match at the same place is a front of it.  A quoted literal is read whenever
the text starts with one, so an error means that no literal is there.
-/

namespace BlockScript
namespace Pattern

open Computability
open Lexeme (isDigit isEscapeLetter startsIdentifier continuesIdentifier splitWhole
  splitFraction number minus operator_kind stringBody closeCharacter next)

section Runs

variable {p : Char → Bool} {u cs : List Char}

/-- A front of a text over a class of characters is a front of the longest such front. -/
theorem prefix_takeWhile (hu : ∀ c ∈ u, p c = true) (h : u <+: cs) : u <+: cs.takeWhile p := by
  obtain ⟨t, rfl⟩ := h
  rw [List.takeWhile_append_of_pos hu]
  exact List.prefix_append _ _

theorem of_mem_takeWhile {c : Char} (h : c ∈ cs.takeWhile p) : p c = true :=
  List.all_eq_true.mp List.all_takeWhile c h

end Runs

section Identifiers

variable {c : Char} {cs w : List Char}

theorem identifier_matched (hc : startsIdentifier c = true) :
    c :: cs.takeWhile continuesIdentifier ∈ identifier :=
  mem_one_mul_star.mpr ⟨c, _, rfl, hc, fun _ => of_mem_takeWhile⟩

theorem identifier_front (hw : w ∈ identifier) (h : w <+: c :: cs) :
    w <+: c :: cs.takeWhile continuesIdentifier := by
  obtain ⟨d, ds, rfl, -, hds⟩ := mem_one_mul_star.mp hw
  obtain ⟨rfl, hfront⟩ := List.cons_prefix_cons.mp h
  exact List.cons_prefix_cons.mpr ⟨rfl, prefix_takeWhile hds hfront⟩

end Identifiers

section Numbers

variable {c : Char} {cs s u t f w : List Char}

theorem splitWhole_of_ne_zero (hc : c ≠ '0') :
    splitWhole (c :: cs) = ((c :: cs).takeWhile isDigit, (c :: cs).dropWhile isDigit) := by
  unfold splitWhole
  split
  · rename_i heq
    exact absurd (List.cons.inj heq).1 hc
  · rfl

theorem ne_zero_of_isLeadingDigit (h : isLeadingDigit c = true) : c ≠ '0' :=
  bne_iff_ne.mp (Bool.and_eq_true_iff.mp h).2

theorem isDigit_of_leading (hc : isLeadingDigit c = true) (hcs : ∀ d ∈ cs, isDigit d = true) :
    ∀ d ∈ c :: cs, isDigit d = true :=
  List.forall_mem_cons.mpr ⟨isDigit_of_isLeadingDigit hc, hcs⟩

theorem whole_matched (hc : isDigit c = true) : (splitWhole (c :: cs)).1 ∈ whole := by
  by_cases hzero : c = '0'
  · subst hzero
    exact mem_whole.mpr (.inl rfl)
  · rw [splitWhole_of_ne_zero hzero]
    refine mem_whole.mpr
      (.inr ⟨c, cs.takeWhile isDigit, by simp [hc], ?_, fun _ => of_mem_takeWhile⟩)
    simp [isLeadingDigit, hc, hzero]

theorem whole_front (hu : u ∈ whole) (h : u <+: cs) : u <+: (splitWhole cs).1 := by
  rcases mem_whole.mp hu with rfl | ⟨c, ds, rfl, hc, hds⟩
  · obtain ⟨t, rfl⟩ := h
    exact List.prefix_rfl
  · obtain ⟨t, rfl⟩ := h
    rw [List.cons_append, splitWhole_of_ne_zero (ne_zero_of_isLeadingDigit hc), ← List.cons_append]
    exact prefix_takeWhile (isDigit_of_leading hc hds) (List.prefix_append _ _)

/-- A whole part before a point is read as a whole. -/
theorem splitWhole_of_point (hu : u ∈ whole) : splitWhole (u ++ '.' :: t) = (u, '.' :: t) := by
  rcases mem_whole.mp hu with rfl | ⟨c, ds, rfl, hc, hds⟩
  · rfl
  · have hdigits := isDigit_of_leading hc hds
    rw [List.cons_append, splitWhole_of_ne_zero (ne_zero_of_isLeadingDigit hc), ← List.cons_append,
      List.takeWhile_append_of_pos hdigits, List.dropWhile_append_of_pos hdigits]
    simp [not_isDigit_point]

theorem fraction_matched :
    (splitFraction cs).1 = [] ∨ (splitFraction cs).1 ∈ fraction := by
  unfold splitFraction
  split
  · split
    · rename_i hc
      exact .inr (mem_fraction.mpr ⟨_, _, rfl, hc, fun _ => of_mem_takeWhile⟩)
    · exact .inl rfl
  · exact .inl rfl

theorem fraction_front (hf : f ∈ fraction) (h : f <+: cs) : f <+: (splitFraction cs).1 := by
  obtain ⟨c, ds, rfl, hc, hds⟩ := mem_fraction.mp hf
  obtain ⟨t, rfl⟩ := h
  simp only [List.cons_append, splitFraction, hc, if_true]
  exact List.cons_prefix_cons.mpr ⟨rfl, List.cons_prefix_cons.mpr
    ⟨rfl, prefix_takeWhile hds (List.prefix_append _ _)⟩⟩

theorem ne_nil_of_mem_fraction (h : f ∈ fraction) : f ≠ [] := by
  obtain ⟨c, ds, rfl, -⟩ := mem_fraction.mp h
  exact List.cons_ne_nil _ _

theorem number_matched (hs : s ∈ sign) (hc : isDigit c = true) :
    (number s (c :: cs)).text ∈ ofKind (number s (c :: cs)).kind := by
  have hwhole : s ++ (splitWhole (c :: cs)).1 ∈ sign * whole :=
    Language.append_mem_mul hs (whole_matched hc)
  unfold number
  dsimp only
  have hfraction : (splitFraction (splitWhole (c :: cs)).2).1 = [] ∨
      (splitFraction (splitWhole (c :: cs)).2).1 ∈ fraction := fraction_matched
  rcases hfraction with hfraction | hfraction
  · rw [hfraction, List.append_nil]
    exact hwhole
  · rw [if_neg (ne_nil_of_mem_fraction hfraction)]
    exact Language.append_mem_mul hwhole hfraction

theorem number_kind_mem : (number s cs).kind ∈ [TokenKind.integer, .decimal] := by
  unfold number
  dsimp only
  split <;> simp

/-- The unsigned part of a number is a front of what is read of it. -/
theorem unsigned_front {k : TokenKind} (hk : k ∈ [TokenKind.integer, .decimal])
    (hw : w ∈ ofKind k) : ∃ s u, s ∈ sign ∧ w = s ++ u ∧ (∃ d ds, u = d :: ds ∧ isDigit d = true) ∧
      ∀ cs, u <+: cs → u <+: (number [] cs).text := by
  have hhead : ∀ {v x : List Char}, v ∈ whole → ∃ d ds, v ++ x = d :: ds ∧ isDigit d = true := by
    intro v x hv
    obtain ⟨d, ds, rfl⟩ := List.exists_cons_of_ne_nil (ne_nil_of_mem_whole hv)
    exact ⟨d, ds ++ x, rfl, isDigit_of_mem_whole hv d List.mem_cons_self⟩
  simp only [List.mem_cons, List.not_mem_nil, or_false] at hk
  rcases hk with rfl | rfl
  · obtain ⟨s, hs, u, hu, rfl⟩ := Language.mem_mul.mp hw
    refine ⟨s, u, hs, rfl, by simpa using hhead (x := []) hu, fun cs hfront => ?_⟩
    exact (whole_front hu hfront).trans (List.prefix_append _ _)
  · obtain ⟨_, hwhole, f, hf, rfl⟩ := Language.mem_mul.mp hw
    obtain ⟨s, hs, u, hu, rfl⟩ := Language.mem_mul.mp hwhole
    refine ⟨s, u ++ f, hs, List.append_assoc _ _ _, hhead hu, fun cs hfront => ?_⟩
    obtain ⟨t, rfl⟩ := hfront
    obtain ⟨d, ds, rfl, hd, hds⟩ := mem_fraction.mp hf
    have hsplit : splitWhole (u ++ '.' :: d :: ds ++ t) = (u, '.' :: d :: ds ++ t) := by
      rw [List.append_assoc]
      exact splitWhole_of_point hu
    simp only [number, hsplit, List.nil_append]
    exact (List.prefix_append_right_inj u).mpr (fraction_front hf (List.prefix_append _ _))

theorem number_text_sign : (number s cs).text = s ++ (number [] cs).text := by
  simp [number]

/-- Behind its sign, every number that a text starts with is a front of the one read. -/
theorem number_front {k : TokenKind} (hk : k ∈ [TokenKind.integer, .decimal])
    (hw : w ∈ ofKind k) (hs : s ∈ sign) (hc : isDigit c = true) (h : w <+: s ++ c :: cs) :
    w <+: (number s (c :: cs)).text := by
  obtain ⟨s', u, hs', rfl, ⟨d, ds, rfl, hd⟩, hu⟩ := unsigned_front hk hw
  -- The signs agree, since the first digits do not read as a minus.
  have hsign : s' = s := by
    rcases mem_sign.mp hs with rfl | rfl <;> rcases mem_sign.mp hs' with rfl | rfl
    · rfl
    · obtain ⟨rfl, -⟩ := List.cons_prefix_cons.mp h
      exact absurd hc (by decide)
    · obtain ⟨rfl, -⟩ := List.cons_prefix_cons.mp h
      exact absurd hd (by decide)
    · rfl
  subst hsign
  rw [number_text_sign]
  exact (List.prefix_append_right_inj s').mpr
    (hu _ ((List.prefix_append_right_inj s').mp h))

end Numbers

section Quoted

variable {content cs t : List Char} {before : Nat}

/-- A text that starts no escape starts with another character than a backslash. -/
theorem ne_backslash {c : Char} (hescape : ∀ e es, c = '\\' → cs = e :: es → False)
    (hlone : c = '\\' → cs = [] → False) : c ≠ '\\' := by
  rintro rfl
  cases cs with
  | nil => exact hlone rfl rfl
  | cons e es => exact hescape e es rfl rfl

theorem character_of_ne {c : Char} (hc : c ≠ '\\') (cs : List Char) :
    Lexeme.character (c :: cs) = if c = '\'' || c = '\n' || c = '\r' then
      .error ⟨.invalidCharacter, 1⟩ else closeCharacter [c] cs := by
  unfold Lexeme.character
  split
  · rename_i heq
    exact absurd (List.cons.inj heq).1 hc
  · rename_i heq
    exact absurd (List.cons.inj heq).1 hc
  · rename_i heq
    obtain ⟨rfl, rfl⟩ := List.cons.inj heq
    rfl
  · rename_i heq
    cases heq

theorem character_matched {l : Lexeme} (h : Lexeme.character cs = .ok l) :
    l.text ∈ ofKind l.kind ∧ l.kind = .character := by
  have hkind := Lexeme.character_kind h
  refine ⟨?_, hkind⟩
  rw [hkind]
  have hclose : ∀ {content cs}, content ∈ escape + one isPlainCharacter →
      closeCharacter content cs = .ok l → l.text ∈ ofKind .character := by
    intro content cs hcontent h
    unfold closeCharacter at h
    split at h
    · cases h
      exact mem_quoted.mpr ⟨content, hcontent, rfl⟩
    · cases h
  unfold Lexeme.character at h
  split at h
  · split at h
    · rename_i he
      exact hclose (.inl (mem_escape.mpr ⟨_, he, rfl⟩)) h
    · cases h
  · cases h
  · split at h
    · cases h
    · rename_i c cs hescape hlone hc
      refine hclose (.inr ⟨c, ?_, rfl⟩) h
      have hbackslash := ne_backslash hescape hlone
      simp only [Bool.or_eq_true, decide_eq_true_eq, not_or] at hc
      simp [isPlainCharacter, hbackslash, hc]
  · cases h

/-- A character literal at the front of a text is read. -/
theorem character_complete (h : content ∈ escape + one isPlainCharacter) :
    Lexeme.character (content ++ '\'' :: t) = .ok ⟨.character, '\'' :: (content ++ ['\'']), t⟩ := by
  rcases h with h | ⟨c, hc, rfl⟩
  · obtain ⟨e, he, rfl⟩ := mem_escape.mp h
    simp [Lexeme.character, he, closeCharacter]
  · simp only [isPlainCharacter, Bool.and_eq_true, bne_iff_ne] at hc
    obtain ⟨⟨⟨hquote, hbackslash⟩, hfeed⟩, hreturn⟩ := hc
    rw [List.singleton_append, character_of_ne hbackslash]
    simp [hquote, hfeed, hreturn, closeCharacter]

/-- A word of items extended at the front by one of them. -/
theorem append_mem_star {l : Language Char} {u w : List Char} (hu : u ∈ l) (hw : w ∈ l∗) :
    u ++ w ∈ l∗ :=
  (mul_kstar_le_kstar : l * l∗ ≤ l∗) (Language.append_mem_mul hu hw)

theorem stringBody_matched {r : List Char × List Char} (h : stringBody before cs = .ok r) :
    ∃ content ∈ (escape + one isPlainInString)∗, r.1 = content ++ ['"'] := by
  fun_induction stringBody before cs generalizing r with
  | case1 =>
    cases h
    exact ⟨[], Language.nil_mem_kstar _, rfl⟩
  | case2 before e cs he ih =>
    cases hb : stringBody (before + 2) cs with
    | error f => simp [hb, Except.map] at h
    | ok r' =>
      simp only [hb, Except.map, Except.ok.injEq] at h
      subst h
      obtain ⟨content, hcontent, heq⟩ := ih hb
      exact ⟨['\\', e] ++ content, append_mem_star (.inl (mem_escape.mpr ⟨e, he, rfl⟩)) hcontent,
        by simp [heq]⟩
  | case3 => cases h
  | case4 => cases h
  | case5 before c cs hquote hescape hlone hp ih =>
    cases hb : stringBody (before + 1) cs with
    | error f => simp [hb, Except.map] at h
    | ok r' =>
      simp only [hb, Except.map, Except.ok.injEq] at h
      subst h
      obtain ⟨content, hcontent, heq⟩ := ih hb
      have hbackslash := ne_backslash hescape hlone
      refine ⟨[c] ++ content, append_mem_star (.inr ⟨c, ?_, rfl⟩) hcontent, by simp [heq]⟩
      simpa [isPlainInString, hp, hbackslash] using hquote
  | case6 => cases h
  | case7 => cases h

/-- The rest of a string literal is read up to its quote. -/
theorem stringBody_complete (h : content ∈ (escape + one isPlainInString)∗) :
    stringBody before (content ++ '"' :: t) = .ok (content ++ ['"'], t) := by
  obtain ⟨items, rfl, hitems⟩ := h
  induction items generalizing before with
  | nil => rfl
  | cons item items ih =>
    obtain ⟨hitem, hrest⟩ := List.forall_mem_cons.mp hitems
    rcases hitem with hitem | ⟨c, hc, rfl⟩
    · obtain ⟨e, he, rfl⟩ := mem_escape.mp hitem
      simp [stringBody, he, ih hrest, Except.map]
    · simp only [isPlainInString, Bool.and_eq_true, bne_iff_ne] at hc
      obtain ⟨⟨hprint, hquote⟩, hbackslash⟩ := hc
      simp [stringBody, hprint, hbackslash, ih hrest, Except.map]

end Quoted

section Operators

variable {c : Char} {cs w : List Char}

theorem operator_matched : (Lexeme.operator c cs).text ∈ operator := by
  refine mem_operator.mpr ?_
  unfold Lexeme.operator
  split <;> simp [Lexeme.single]

theorem operator_head : [c] <+: (Lexeme.operator c cs).text := by
  unfold Lexeme.operator
  split <;> simp [Lexeme.single]

theorem operator_front (hw : w ∈ operator) (h : w <+: c :: cs) :
    w <+: (Lexeme.operator c cs).text := by
  obtain ⟨t, ht⟩ := h
  rcases mem_operator.mp hw with rfl | rfl | rfl | rfl | ⟨d, rfl⟩
  all_goals
    obtain ⟨rfl, rfl⟩ := List.cons.inj ht
  -- A pair is read as a whole, and every operator starts with its first character.
  · exact List.prefix_rfl
  · exact List.prefix_rfl
  · exact List.prefix_rfl
  · exact List.prefix_rfl
  · exact operator_head

end Operators

section Classes

variable {c : Char} {cs : List Char}

theorem kindsAt_of_startsIdentifier (h : startsIdentifier c = true) :
    kindsAt (c :: cs) = [.identifier] := by
  simp [kindsAt, h]

theorem kindsAt_of_startsNumber (hident : startsIdentifier c = false)
    (h : startsNumber c cs = true) : kindsAt (c :: cs) = [.integer, .decimal] := by
  simp [kindsAt, hident, h]

theorem kindsAt_character : kindsAt ('\'' :: cs) = [.character] := rfl

theorem kindsAt_string : kindsAt ('"' :: cs) = [.string] := rfl

theorem kindsAt_operator (hident : startsIdentifier c = false) (hnumber : startsNumber c cs = false)
    (hcharacter : c ≠ '\'') (hstring : c ≠ '"') : kindsAt (c :: cs) = [.operator] := by
  simp [kindsAt, hident, hnumber, hcharacter, hstring]

/-- A candidate that every other candidate is a front of is the token. -/
theorem IsTokenAt.of_front {input w : List Char} {k : TokenKind} (h : IsCandidate input k w)
    (hfront : ∀ k' w', IsCandidate input k' w' → w' <+: w) : IsTokenAt input k w :=
  ⟨h, fun k' w' h' => (hfront k' w' h').length_le⟩

/-- A literal that the text starts with is read, and it is the only candidate. -/
theorem next_of_isCandidate_quoted {q : Char} (hq : q = '\'' ∨ q = '"') {k : TokenKind}
    {w t : List Char} (h : IsCandidate (w ++ t) k w) (hcs : w ++ t = q :: cs) :
    next q cs = .ok ⟨k, w, t⟩ := by
  have hk := h.allowed
  rw [hcs] at hk
  rcases hq with rfl | rfl
  · rw [kindsAt_character, List.mem_singleton] at hk
    subst hk
    obtain ⟨content, hcontent, rfl⟩ := mem_quoted.mp h.matched
    obtain ⟨-, rfl⟩ := List.cons.inj hcs
    simpa [next, startsIdentifier, Lexeme.isLetter, isDigit] using character_complete hcontent
  · rw [kindsAt_string, List.mem_singleton] at hk
    subst hk
    obtain ⟨content, hcontent, rfl⟩ := mem_quoted.mp h.matched
    obtain ⟨-, rfl⟩ := List.cons.inj hcs
    have hbody : stringBody 1 (content ++ '"' :: t) = .ok (content ++ ['"'], t) :=
      stringBody_complete hcontent
    simp [next, startsIdentifier, Lexeme.isLetter, isDigit, hbody, Except.map]

theorem isTokenAt_number {s : List Char} (hs : s ∈ sign) (hc : isDigit c = true)
    (hkinds : kindsAt (s ++ c :: cs) = [.integer, .decimal]) :
    IsTokenAt (s ++ c :: cs) (number s (c :: cs)).kind (number s (c :: cs)).text := by
  refine .of_front ⟨hkinds ▸ number_kind_mem, number_matched hs hc,
    ⟨_, Lexeme.number_split s (c :: cs)⟩⟩ ?_
  rintro k w ⟨hk, hw, hfront⟩
  exact number_front (hkinds ▸ hk) hw hs hc hfront

theorem isTokenAt_operator (hkinds : kindsAt (c :: cs) = [.operator]) :
    IsTokenAt (c :: cs) (Lexeme.operator c cs).kind (Lexeme.operator c cs).text := by
  rw [operator_kind]
  refine .of_front ⟨by simp [hkinds], operator_matched, ⟨_, Lexeme.operator_split c cs⟩⟩ ?_
  rintro k w ⟨hk, hw, hfront⟩
  obtain rfl : k = .operator := by simpa [hkinds] using hk
  exact operator_front hw hfront

theorem isTokenAt_quoted {q : Char} (hq : q = '\'' ∨ q = '"') {l : Lexeme}
    (h : next q cs = .ok l) (hkinds : kindsAt (q :: cs) = [l.kind])
    (hmatched : l.text ∈ ofKind l.kind) : IsTokenAt (q :: cs) l.kind l.text := by
  refine .of_front ⟨by simp [hkinds], hmatched, ⟨_, Lexeme.next_split h⟩⟩ ?_
  intro k w hw
  obtain ⟨t, ht⟩ := hw.front
  have hnext := next_of_isCandidate_quoted hq (ht ▸ hw) ht
  rw [h, Except.ok.injEq] at hnext
  rw [hnext]

/-- What is read at the front of a text is the longest match of its class. -/
theorem isTokenAt_of_next {l : Lexeme} (h : next c cs = .ok l) :
    IsTokenAt (c :: cs) l.kind l.text := by
  have hnext := h
  unfold next at h
  split at h
  · rename_i hc
    have hfront := Lexeme.next_split hnext
    cases h
    have hkinds : kindsAt (c :: cs) = [.identifier] := kindsAt_of_startsIdentifier hc
    refine .of_front ⟨by simp [hkinds], identifier_matched hc, ⟨_, hfront⟩⟩ ?_
    rintro k w ⟨hk, hw, hlead⟩
    obtain rfl : k = .identifier := by simpa [hkinds] using hk
    exact identifier_front hw hlead
  rename_i hident
  rw [Bool.not_eq_true] at hident
  split at h
  · rename_i hminus
    subst hminus
    cases h
    -- A minus is the sign of a number or an operator.
    unfold minus
    split
    · rename_i d ds
      split
      · rename_i hd
        refine isTokenAt_number (mem_sign.mpr (.inr rfl)) hd ?_
        exact kindsAt_of_startsNumber hident (by simp [startsNumber, hd])
      · rename_i hd
        refine isTokenAt_operator (kindsAt_operator hident ?_ (by decide) (by decide))
        simp [startsNumber, hd, not_isDigit_minus]
    · exact isTokenAt_operator rfl
  rename_i hminus
  split at h
  · rename_i hc
    cases h
    refine isTokenAt_number (mem_sign.mpr (.inl rfl)) hc ?_
    exact kindsAt_of_startsNumber hident (by simp [startsNumber, hc])
  rename_i hdigit
  split at h
  · rename_i hquote
    subst hquote
    obtain ⟨hmatched, hkind⟩ := character_matched h
    exact isTokenAt_quoted (.inl rfl) hnext (by rw [hkind, kindsAt_character]) hmatched
  rename_i hcharacter
  split at h
  · rename_i hquote
    subst hquote
    cases hbody : stringBody 1 cs with
    | error f =>
      rw [hbody] at h
      cases h
    | ok r =>
      rw [hbody] at h
      cases h
      obtain ⟨content, hcontent, heq⟩ := stringBody_matched hbody
      refine isTokenAt_quoted (.inr rfl) hnext kindsAt_string ?_
      exact mem_quoted.mpr ⟨content, hcontent, congrArg ('"' :: ·) heq⟩
  · rename_i hstring
    cases h
    refine isTokenAt_operator (kindsAt_operator hident ?_ hcharacter hstring)
    simp [startsNumber, hdigit, hminus]

/-- Only at a quote can no token be read. -/
theorem quote_of_next_error {f : LexFault} (h : next c cs = .error f) : c = '\'' ∨ c = '"' := by
  unfold next at h
  split at h
  · cases h
  split at h
  · cases h
  split at h
  · cases h
  split at h
  · rename_i hquote
    exact .inl hquote
  split at h
  · rename_i hquote
    exact .inr hquote
  · cases h

/-- No token is read only where no literal matches. -/
theorem not_isCandidate_of_next_error {f : LexFault} (h : next c cs = .error f)
    (k : TokenKind) (w : List Char) : ¬ IsCandidate (c :: cs) k w := by
  intro hw
  obtain ⟨t, ht⟩ := hw.front
  have hnext := next_of_isCandidate_quoted (quote_of_next_error h) (ht ▸ hw) ht
  rw [h] at hnext
  cases hnext

/-- The token at the front of a text is the one that is read. -/
theorem next_of_isTokenAt {k : TokenKind} {w t : List Char} (h : IsTokenAt (c :: cs) k w)
    (hcs : w ++ t = c :: cs) : next c cs = .ok ⟨k, w, t⟩ := by
  cases hnext : next c cs with
  | error f => exact absurd h.toIsCandidate (not_isCandidate_of_next_error hnext k w)
  | ok l =>
    obtain ⟨rfl, rfl⟩ := (isTokenAt_of_next hnext).unique h
    have hrest : l.rest = t :=
      List.append_cancel_left ((Lexeme.next_split hnext).trans hcs.symm)
    rw [← hrest]

end Classes

end Pattern
end BlockScript
