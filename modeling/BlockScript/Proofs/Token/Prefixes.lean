import BlockScript.Proofs.Token.Splitting

/-!
# Where a text is rejected

A text that cannot be scanned is rejected behind its longest viable prefix.  Two facts
carry this.

* A quote cuts a text: the tokens in front of it stay the same whatever follows the quote,
  since no other token goes over a quote and no literal is a proper front of another one
  (`Splits.cut`).
* A literal is rejected at the first character with which no literal goes on
  (`next_rejects`).
-/

namespace BlockScript

open Lexeme (isBlank isDigit isEscapeLetter startsIdentifier continuesIdentifier stringBody
  closeCharacter next)

namespace Pattern

/-- The characters that start a literal. -/
def IsQuote (q : Char) : Prop := q = '\'' ∨ q = '"'

instance (q : Char) : Decidable (IsQuote q) := inferInstanceAs (Decidable (_ ∨ _))

/-- A character that no token but a literal has behind its first character. -/
structure IsApart (q : Char) : Prop where
  identifier : continuesIdentifier q = false
  mark : q ∉ ['.', '=', '&', '|']

section Quotes

variable {q : Char} {w : List Char}

theorem isApart_of_isQuote (hq : IsQuote q) : IsApart q := by
  rcases hq with rfl | rfl <;> exact ⟨by decide, by decide⟩

theorem isApart_of_isBlank (hq : isBlank q = true) : IsApart q := by
  simp only [isBlank, Bool.or_eq_true, decide_eq_true_eq] at hq
  rcases hq with (((rfl | rfl) | rfl) | rfl) | rfl <;> exact ⟨by decide, by decide⟩

theorem IsApart.not_isDigit (hq : IsApart q) : isDigit q = false := by
  have hclass := hq.identifier
  simp only [continuesIdentifier, Bool.or_eq_false_iff] at hclass
  exact hclass.1.1.2

theorem IsApart.ne_minus (hq : IsApart q) : q ≠ '-' := by
  rintro rfl
  exact absurd hq.identifier (by decide)

theorem notMem_of_class {p : Char → Bool} (hq : p q = false) (hw : ∀ c ∈ w, p c = true) :
    q ∉ w := by
  intro hmem
  rw [hw q hmem] at hq
  cases hq

theorem notMem_signed (hq : IsApart q) (hw : w ∈ sign * whole) : q ∉ w := by
  obtain ⟨s, hs, u, hu, rfl⟩ := Language.mem_mul.mp hw
  have hwhole := notMem_of_class hq.not_isDigit (isDigit_of_mem_whole hu)
  rcases mem_sign.mp hs with rfl | rfl
  · exact hwhole
  · simpa [hq.ne_minus] using hwhole

theorem notMem_fraction (hq : IsApart q) (hw : w ∈ fraction) : q ∉ w := by
  obtain ⟨c, cs, rfl, hc, hcs⟩ := mem_fraction.mp hw
  have hdigits := notMem_of_class hq.not_isDigit (List.forall_mem_cons.mpr ⟨hc, hcs⟩)
  have hpoint : q ≠ '.' := fun heq => hq.mark (by simp [heq])
  exact fun hmem => (List.mem_cons.mp hmem).elim hpoint hdigits

/-- Behind its first character, a token other than a literal has no character that stays
apart. -/
theorem notMem_tail {k : TokenKind} {c : Char} (hq : IsApart q) (hcharacter : k ≠ .character)
    (hstring : k ≠ .string) (hw : c :: w ∈ ofKind k) : q ∉ w := by
  cases k with
  | identifier =>
      obtain ⟨d, ds, heq, -, hds⟩ := mem_one_mul_star.mp hw
      obtain ⟨-, rfl⟩ := List.cons.inj heq
      exact notMem_of_class hq.identifier hds
  | integer => exact fun hmem => notMem_signed hq hw (List.mem_cons_of_mem _ hmem)
  | decimal =>
      obtain ⟨u, hu, f, hf, heq⟩ := Language.mem_mul.mp hw
      intro hmem
      rcases List.mem_append.mp (heq ▸ List.mem_cons_of_mem c hmem) with hmem | hmem
      · exact notMem_signed hq hu hmem
      · exact notMem_fraction hq hf hmem
  | character => exact absurd rfl hcharacter
  | string => exact absurd rfl hstring
  | operator =>
      have hmark := hq.mark
      rcases mem_operator.mp hw with h | h | h | h | ⟨d, h⟩ <;>
        · obtain ⟨-, rfl⟩ := List.cons.inj h
          intro hmem
          exact hmark (by simp_all)

/-- A literal starts with its quote. -/
theorem isQuote_of_literal {k : TokenKind} {c : Char} {cs : List Char}
    (hk : k = .character ∨ k = .string) (hw : c :: cs ∈ ofKind k) : IsQuote c := by
  rcases hk with rfl | rfl <;> obtain ⟨content, -, heq⟩ := mem_quoted.mp hw
  · exact .inl (List.cons.inj heq).1
  · exact .inr (List.cons.inj heq).1

end Quotes

section Cuts

variable {c : Char} {w x y y' : List Char}

/-- A minus before a digit is no token by itself. -/
theorem not_isTokenAt_minus {k : TokenKind} {d : Char} {v : List Char} (hd : isDigit d = true) :
    ¬ IsTokenAt ('-' :: d :: v) k ['-'] := by
  intro h
  have hwhole : [d] ∈ whole := by
    by_cases hzero : d = '0'
    · exact mem_whole.mpr (.inl (by rw [hzero]))
    · exact mem_whole.mpr (.inr ⟨d, [], rfl, by simp [isLeadingDigit, hd, hzero], nofun⟩)
  have hkinds : kindsAt ('-' :: d :: v) = [.integer, .decimal] :=
    kindsAt_of_startsNumber rfl (by simp [startsNumber, hd])
  have hlength := h.longest .integer ['-', d]
    ⟨by simp [hkinds], Language.append_mem_mul (mem_sign.mpr (.inr rfl)) hwhole, v, rfl⟩
  simp at hlength

/-- The kinds of a token depend on no more than its first two characters. -/
theorem kindsAt_of_isTokenAt {k : TokenKind} (hy : ∀ q ∈ y'.head?, IsApart q)
    (h : IsTokenAt (c :: (w ++ (x ++ y))) k (c :: w)) :
    kindsAt (c :: (w ++ (x ++ y'))) = kindsAt (c :: (w ++ (x ++ y))) := by
  rcases w with _ | ⟨d, w⟩
  · rcases x with _ | ⟨d, x⟩
    · have hsign : c = '-' → y.head?.any isDigit = false := by
        rintro rfl
        rcases y with _ | ⟨d, y⟩
        · rfl
        · exact Bool.eq_false_iff.mpr fun hd => not_isTokenAt_minus hd h
      have hapart : y'.head?.any isDigit = false := by
        rcases y' with _ | ⟨q, y'⟩
        · rfl
        · exact (hy q rfl).not_isDigit
      by_cases hc : c = '-'
      · simp [kindsAt, startsNumber, hapart, hsign hc]
      · simp [kindsAt, startsNumber, hc]
    · rfl
  · rfl

/-- A kind that is not a literal's stands beside no literal. -/
theorem not_literal_of_mem_kindsAt {input : List Char} {k k' : TokenKind}
    (hk : k ∈ kindsAt input) (hk' : k' ∈ kindsAt input)
    (h : k ≠ .character ∧ k ≠ .string) : k' ≠ .character ∧ k' ≠ .string := by
  rcases kindsAt_eq input with heq | ⟨k₀, heq⟩ | heq
  · rw [heq] at hk
    cases hk
  · rw [heq, List.mem_singleton] at hk hk'
    rw [hk', ← hk]
    exact h
  · rw [heq] at hk'
    simp only [List.mem_cons, List.not_mem_nil, or_false] at hk'
    rcases hk' with rfl | rfl <;> decide

/-- A word of a kind other than a literal's that goes up to a character apart ends there. -/
theorem front_of_isApart {k : TokenKind} {u : List Char} (hy : ∀ q ∈ y.head?, IsApart q)
    (hk : k ≠ .character ∧ k ≠ .string) (hu : u ∈ ofKind k) (hfront : u <+: c :: (x ++ y)) :
    u <+: c :: x := by
  rcases List.prefix_or_prefix_of_prefix hfront (List.prefix_append (c :: x) y) with h | h
  · exact h
  · obtain ⟨t, rfl⟩ := h
    have ht : t <+: y := (List.prefix_append_right_inj (c :: x)).mp hfront
    cases t with
    | nil => rw [List.append_nil]
    | cons q t =>
        obtain ⟨v, rfl⟩ := ht
        exact absurd (List.mem_append_right _ List.mem_cons_self)
          (notMem_tail (hy q rfl) hk.1 hk.2 hu)

/-- A token is the same when the text behind it goes on as before up to its end or up to a
character apart. -/
theorem IsTokenAt.along {k : TokenKind} (hy : ∀ q ∈ y'.head?, IsApart q)
    (h : IsTokenAt (c :: (w ++ (x ++ y))) k (c :: w)) :
    IsTokenAt (c :: (w ++ (x ++ y'))) k (c :: w) := by
  have hkinds := kindsAt_of_isTokenAt hy h
  have hcandidate : IsCandidate (c :: (w ++ (x ++ y'))) k (c :: w) :=
    ⟨hkinds ▸ h.allowed, h.matched, List.prefix_append (c :: w) _⟩
  refine ⟨hcandidate, fun k' w' h' => ?_⟩
  by_cases hk : k = .character ∨ k = .string
  · -- No literal is a proper front of another one, since both would be read.
    have hquote := isQuote_of_literal hk h.matched
    obtain ⟨t, ht⟩ := h'.front
    have hread : next c (w ++ (x ++ y')) = .ok ⟨k, c :: w, x ++ y'⟩ :=
      next_of_isCandidate_quoted hquote hcandidate rfl
    have hread' := next_of_isCandidate_quoted hquote (ht ▸ h') ht
    rw [hread, Except.ok.injEq, Lexeme.mk.injEq] at hread'
    rw [hread'.2.1]
  · -- A longer word would go over the character, so it is in front of it, as before.
    have hk' := not_literal_of_mem_kindsAt hcandidate.allowed h'.allowed (not_or.mp hk)
    have hfront : w' <+: c :: (w ++ x) := by
      refine front_of_isApart hy hk' h'.matched ?_
      rw [List.append_assoc]
      exact h'.front
    refine h.longest k' w' ⟨hkinds ▸ h'.allowed, h'.matched, hfront.trans ?_⟩
    rw [← List.append_assoc]
    exact List.prefix_append (c :: (w ++ x)) _

end Cuts

end Pattern

namespace Splits

variable {cs mid rest : List Char} {ts us : List (TokenKind × List Char)}

/-- A split goes on with a split of its rest. -/
theorem append (h : Splits cs ts mid) (h' : Splits mid us rest) : Splits cs (ts ++ us) rest := by
  induction h with
  | done => exact h'
  | blank hc _ ih => exact .blank hc (ih h')
  | token hc htoken _ ih => exact .token hc htoken (ih h')

/-- A split up to a quote is the same whatever follows the quote. -/
theorem cut {q : Char} {v : List Char} (hq : Pattern.IsQuote q) (h : Splits cs ts (q :: v)) :
    ∃ before, cs = before ++ q :: v ∧ ∀ v', Splits (before ++ q :: v') ts (q :: v') := by
  generalize hrest : q :: v = rest at h
  induction h with
  | done =>
      subst hrest
      exact ⟨[], rfl, fun _ => .done⟩
  | @blank c cs rest ts hc _ ih =>
      subst hrest
      obtain ⟨before, rfl, hcut⟩ := ih rfl
      exact ⟨c :: before, rfl, fun v' => .blank hc (hcut v')⟩
  | @token c w cs rest kind ts hc htoken _ ih =>
      subst hrest
      obtain ⟨before, rfl, hcut⟩ := ih rfl
      refine ⟨c :: (w ++ before), by simp, fun v' => ?_⟩
      rw [List.cons_append, List.append_assoc]
      exact .token hc (htoken.along (by simpa using Pattern.isApart_of_isQuote hq)) (hcut v')

end Splits

namespace Lexeme

section Faults

variable {cs : List Char} {f : LexFault}

/-- The end of a character literal is rejected at once. -/
theorem closeCharacter_rejects {content : List Char} (h : closeCharacter content cs = .error f) :
    f.offset = 1 + content.length ∧ (∃ more l, closeCharacter content more = .ok l ∧ l.rest = []) ∧
    ∀ d cs', cs = d :: cs' → ∀ t, closeCharacter content (d :: t) = .error f := by
  unfold closeCharacter at h
  split at h
  · cases h
  · rename_i hquote
    cases h
    refine ⟨Nat.add_comm _ _, ⟨['\''], _, rfl, rfl⟩, ?_⟩
    rintro d cs' rfl t
    have hd : d ≠ '\'' := fun heq => hquote cs' (by rw [heq])
    unfold closeCharacter
    split
    · rename_i heq
      exact absurd (List.cons.inj heq).1 hd
    · rfl

/-- A character literal is rejected at the first character with which it does not go on. -/
theorem character_rejects (h : character cs = .error f) : ∃ x y, cs = x ++ y ∧
    f.offset = 1 + x.length ∧ (∃ more l, character (x ++ more) = .ok l ∧ l.rest = []) ∧
    ∀ d y', y = d :: y' → ∀ t, character (x ++ d :: t) = .error f := by
  unfold character at h
  split at h
  · rename_i e cs
    split at h
    · rename_i he
      obtain ⟨hoffset, ⟨more, l, hmore, hl⟩, hreject⟩ := closeCharacter_rejects h
      refine ⟨['\\', e], cs, rfl, hoffset, ⟨more, l, by simp [character, he, hmore], hl⟩, ?_⟩
      intro d y' hy t
      simp [character, he, hreject d y' hy t]
    · rename_i he
      cases h
      refine ⟨['\\'], e :: cs, rfl, rfl, ⟨['n', '\''], _, rfl, rfl⟩, ?_⟩
      rintro d y' heq t
      obtain ⟨rfl, -⟩ := List.cons.inj heq
      simp [character, he]
  · cases h
    exact ⟨['\\'], [], rfl, rfl, ⟨['n', '\''], _, rfl, rfl⟩,
      fun d y' heq => absurd heq.symm (List.cons_ne_nil d y')⟩
  · rename_i c cs hescape hlone
    have hplain := Pattern.character_of_ne (Pattern.ne_backslash hescape hlone)
    split at h
    · rename_i hc
      cases h
      refine ⟨[], c :: cs, rfl, rfl, ⟨['a', '\''], _, rfl, rfl⟩, ?_⟩
      rintro d y' heq t
      obtain ⟨rfl, -⟩ := List.cons.inj heq
      rw [List.nil_append, hplain, if_pos hc]
    · rename_i hc
      obtain ⟨hoffset, ⟨more, l, hmore, hl⟩, hreject⟩ := closeCharacter_rejects h
      refine ⟨[c], cs, rfl, hoffset, ⟨more, l, ?_, hl⟩, ?_⟩
      · rw [List.singleton_append, hplain, if_neg hc, hmore]
      · intro d y' hy t
        rw [List.singleton_append, hplain, if_neg hc, hreject d y' hy t]
  · cases h
    exact ⟨[], [], rfl, rfl, ⟨['a', '\''], _, rfl, rfl⟩,
      fun d y' heq => absurd heq.symm (List.cons_ne_nil d y')⟩

/-- The rest of a string literal is rejected at the first character with which it does not
go on. -/
theorem stringBody_rejects {before : Nat} (h : stringBody before cs = .error f) : ∃ x y,
    cs = x ++ y ∧ f.offset = before + x.length ∧
    (∃ more r, stringBody before (x ++ more) = .ok r ∧ r.2 = []) ∧
    ∀ d y', y = d :: y' → ∀ t, stringBody before (x ++ d :: t) = .error f := by
  fun_induction stringBody before cs with
  | case1 => cases h
  | case2 before e cs he ih =>
      cases hb : stringBody (before + 2) cs with
      | ok r => simp [hb, Except.map] at h
      | error f' =>
          simp only [hb, Except.map, Except.error.injEq] at h
          subst h
          obtain ⟨x, y, rfl, hoffset, ⟨more, r, hmore, hr⟩, hreject⟩ := ih hb
          refine ⟨'\\' :: e :: x, y, rfl, by simp [hoffset]; omega,
            ⟨more, ('\\' :: e :: r.1, r.2), by simp [stringBody, he, hmore, Except.map], hr⟩, ?_⟩
          intro d y' hy t
          simp [stringBody, he, hreject d y' hy t, Except.map]
  | case3 before e cs he =>
      cases h
      refine ⟨['\\'], e :: cs, rfl, rfl, ⟨['n', '"'], _, rfl, rfl⟩, ?_⟩
      rintro d y' heq t
      obtain ⟨rfl, -⟩ := List.cons.inj heq
      simp [stringBody, he]
  | case4 =>
      cases h
      exact ⟨['\\'], [], rfl, rfl, ⟨['n', '"'], _, rfl, rfl⟩,
      fun d y' heq => absurd heq.symm (List.cons_ne_nil d y')⟩
  | case5 before c cs hquote hescape hlone hp ih =>
      have hbackslash := Pattern.ne_backslash hescape hlone
      cases hb : stringBody (before + 1) cs with
      | ok r => simp [hb, Except.map] at h
      | error f' =>
          simp only [hb, Except.map, Except.error.injEq] at h
          subst h
          obtain ⟨x, y, rfl, hoffset, ⟨more, r, hmore, hr⟩, hreject⟩ := ih hb
          refine ⟨c :: x, y, rfl, by simp [hoffset]; omega, ⟨more, (c :: r.1, r.2), ?_, hr⟩, ?_⟩
          · simp [stringBody, hp, hbackslash, hmore, Except.map]
          · intro d y' hy t
            simp [stringBody, hp, hbackslash, hreject d y' hy t, Except.map]
  | case6 before c cs hquote hescape hlone hp =>
      cases h
      refine ⟨[], c :: cs, rfl, rfl, ⟨['"'], _, rfl, rfl⟩, ?_⟩
      rintro d y' heq t
      obtain ⟨rfl, -⟩ := List.cons.inj heq
      have hbackslash := Pattern.ne_backslash hescape hlone
      simp [stringBody, hp, hbackslash]
  | case7 =>
      cases h
      exact ⟨[], [], rfl, rfl, ⟨['"'], _, rfl, rfl⟩,
      fun d y' heq => absurd heq.symm (List.cons_ne_nil d y')⟩

/-- A token is rejected at the first character with which it does not go on, and up to
there it can be completed at the end of a text. -/
theorem next_rejects {q : Char} (h : next q cs = .error f) : ∃ x y, cs = x ++ y ∧
    f.offset = 1 + x.length ∧ (∃ more l, next q (x ++ more) = .ok l ∧ l.rest = []) ∧
    ∀ d y', y = d :: y' → ∀ t, next q (x ++ d :: t) = .error f := by
  rcases Pattern.quote_of_next_error h with rfl | rfl
  · have hread : ∀ cs, next '\'' cs = character cs := fun _ => rfl
    simp only [hread] at h ⊢
    exact character_rejects h
  · have hread : ∀ cs, next '"' cs =
        (stringBody 1 cs).map fun r => ⟨.string, '"' :: r.1, r.2⟩ := fun _ => rfl
    simp only [hread] at h ⊢
    cases hb : stringBody 1 cs with
    | ok r => simp [hb, Except.map] at h
    | error f' =>
        simp only [hb, Except.map, Except.error.injEq] at h
        subst h
        obtain ⟨x, y, rfl, hoffset, ⟨more, r, hmore, hr⟩, hreject⟩ := stringBody_rejects hb
        refine ⟨x, y, rfl, hoffset, ⟨more, _, by rw [hmore]; rfl, hr⟩, ?_⟩
        intro d y' hy t
        rw [hreject d y' hy t]
        rfl

end Faults
end Lexeme

namespace Token

/-- The place of an error is counted from the text in front of the malformed literal. -/
theorem scanFrom_error_behind {before v : List Char} {ts : List (TokenKind × List Char)} {q : Char}
    {f : LexFault} (hsplits : Splits (before ++ q :: v) ts (q :: v)) (hblank : isBlank q = false)
    (hv : next q v = .error f) :
    scanFrom .start (before ++ q :: v) = .error ⟨f.cause, before.length + f.offset⟩ := by
  obtain ⟨before', heq, hscan⟩ := hsplits.scanFrom_error hblank hv .start
  rw [hscan, List.append_cancel_right heq]
  simp [Position.start]

/-- **The index of an error is the length of the longest viable prefix.** A text that cannot
be scanned is rejected within it.  The characters in front of the index can be continued to
a text that is scanned, and the character at the index, if there is one, decides: every text
with the same characters up to and with this one is rejected with the same error. -/
theorem scan_rejects_behind_longest_viable_prefix {source : String} {e : LexError}
    (h : scan source = .error e) :
    e.index ≤ source.length ∧
      (∃ more tokens, scan (String.ofList (source.toList.take e.index ++ more)) = .ok tokens) ∧
      (e.index < source.length → ∀ other : String,
        other.toList.take (e.index + 1) = source.toList.take (e.index + 1) →
          scan other = .error e) := by
  obtain ⟨ts, q, rest, f, hsplits, hblank, hnext⟩ := Splits.of_scanFrom_error h
  obtain ⟨before, hsource, hcut⟩ := hsplits.cut (Pattern.quote_of_next_error hnext)
  obtain ⟨x, y, rfl, hoffset, ⟨more, l, hmore, hrest⟩, hreject⟩ := Lexeme.next_rejects hnext
  have herror : ∀ v, next q v = .error f →
      scanFrom .start (before ++ q :: v) = .error ⟨f.cause, before.length + f.offset⟩ :=
    fun v hv => scanFrom_error_behind (hcut v) hblank hv
  have he : e = ⟨f.cause, before.length + f.offset⟩ := by
    have hscan := herror _ hnext
    rw [← hsource] at hscan
    exact Except.error.inj (h.symm.trans hscan)
  have hindex : e.index = (before ++ q :: x).length := by
    rw [he]
    simp [hoffset, Nat.add_comm]
  have hlist : source.toList = (before ++ q :: x) ++ y := by simp [hsource]
  have hlength : source.length = (before ++ q :: x).length + y.length := by
    rw [← String.length_toList, hlist, List.length_append]
  refine ⟨by omega, ?_, fun hlt other hother => ?_⟩
  · -- The literal is completed, and the text ends with it.
    have hsplit : Splits (before ++ q :: (x ++ more)) (ts ++ [(l.kind, l.text)]) [] :=
      (hcut (x ++ more)).append (.of_next hblank hmore (hrest ▸ .done))
    obtain ⟨tokens, hscan, -⟩ := hsplit.scanFrom_ok .start
    refine ⟨more, tokens, ?_⟩
    rw [hlist, hindex, List.take_left, List.append_assoc, scan, String.toList_ofList]
    exact hscan
  · cases y with
    | nil => simp only [List.length_nil] at hlength; omega
    | cons d y =>
        have hfront : other.toList.take (e.index + 1) = (before ++ q :: x) ++ [d] := by
          rw [hother, hlist, hindex, List.take_length_add_append]
          rfl
        have hsame := (List.take_append_drop (e.index + 1) other.toList).symm
        rw [hfront, List.append_assoc, List.append_assoc, List.cons_append] at hsame
        rw [scan, hsame, List.singleton_append, herror _ (hreject d y rfl _), he]

/-- An escape that is unknown is rejected at its letter, whatever follows it. -/
theorem scan_unknown_escape :
    scan "1 'a' \"x\\q\"" = .error ⟨.invalidEscape .string, 9⟩ ∧
      (∃ more tokens, scan (String.ofList ("1 'a' \"x\\q\"".toList.take 9 ++ more)) = .ok tokens) ∧
      ∀ other : String, other.toList.take 10 = "1 'a' \"x\\q\"".toList.take 10 →
        scan other = .error ⟨.invalidEscape .string, 9⟩ := by
  have hscan : scan "1 'a' \"x\\q\"" = .error ⟨.invalidEscape .string, 9⟩ := by cbv
  obtain ⟨-, hmore, hother⟩ := scan_rejects_behind_longest_viable_prefix hscan
  exact ⟨hscan, hmore, hother (by decide)⟩

end Token
end BlockScript
