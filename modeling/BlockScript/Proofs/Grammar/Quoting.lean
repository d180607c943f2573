import BlockScript.Proofs.Grammar.Piece
import BlockScript.Proofs.Grammar.Completeness

/-!
# Writing literals

A text is written as a literal piece by piece: the control characters that have a letter, the
backslash and the quote of the literal as escapes, and any other character as itself.  What is
written is scanned as one token, and reading the token gives the text back
(`Literal.written_reads_back`).  So every text of printable characters and these control
characters has a string literal, and every character has a character literal.

Conversely every literal that is scanned is a row of pieces between its quotes, and it denotes
the decoded pieces.
-/

namespace BlockScript

open Lexeme (isEscapeLetter isBlank stringBody)

/-- A row of fitting pieces between two quotes is the text of a literal. -/
structure QuotedKind.Encloses (kind : QuotedKind) (ps : List Piece) (text : List Char) : Prop where
  fits : ∀ p ∈ ps, p.Fits kind
  text : text = kind.quote :: (ps.flatMap Piece.text ++ [kind.quote])

namespace Pattern

open Computability

variable {w : List Char}

/-- The texts of the pieces that fit into literals of a kind. -/
theorem mem_items_iff (kind : QuotedKind) :
    w ∈ escape + one kind.isPlain ↔ ∃ p : Piece, p.Fits kind ∧ w = p.text := by
  constructor
  · rintro (h | ⟨c, hc, rfl⟩)
    · obtain ⟨letter, hletter, rfl⟩ := mem_escape.mp h
      exact ⟨.escape letter, hletter, rfl⟩
    · exact ⟨.plain c, hc, rfl⟩
  · rintro ⟨p, hp, rfl⟩
    cases p with
    | plain c => exact .inr ⟨c, hp, rfl⟩
    | escape letter => exact .inl (mem_escape.mpr ⟨letter, hp, rfl⟩)

theorem mem_star_items_iff (kind : QuotedKind) : w ∈ (escape + one kind.isPlain)∗ ↔
    ∃ ps : List Piece, (∀ p ∈ ps, p.Fits kind) ∧ w = ps.flatMap Piece.text := by
  constructor
  · rintro ⟨items, rfl, hitems⟩
    induction items with
    | nil => exact ⟨[], by simp, rfl⟩
    | cons item items ih =>
        obtain ⟨hitem, hrest⟩ := List.forall_mem_cons.mp hitems
        obtain ⟨p, hp, rfl⟩ := (mem_items_iff kind).mp hitem
        obtain ⟨ps, hps, htexts⟩ := ih hrest
        exact ⟨p :: ps, List.forall_mem_cons.mpr ⟨hp, hps⟩, by simp [htexts]⟩
  · rintro ⟨ps, hps, rfl⟩
    refine ⟨ps.map Piece.text, rfl, fun item hitem => ?_⟩
    obtain ⟨p, hp, rfl⟩ := List.mem_map.mp hitem
    exact (mem_items_iff kind).mpr ⟨p, hps p hp, rfl⟩

theorem mem_string_iff : w ∈ string ↔ ∃ ps, QuotedKind.string.Encloses ps w := by
  rw [string, mem_quoted]
  constructor
  · rintro ⟨content, hcontent, rfl⟩
    obtain ⟨ps, hps, rfl⟩ := (mem_star_items_iff .string).mp hcontent
    exact ⟨ps, hps, rfl⟩
  · rintro ⟨ps, hps, rfl⟩
    exact ⟨_, (mem_star_items_iff .string).mpr ⟨ps, hps, rfl⟩, rfl⟩

theorem mem_character_iff : w ∈ character ↔ ∃ p, QuotedKind.character.Encloses [p] w := by
  rw [character, mem_quoted]
  constructor
  · rintro ⟨content, hcontent, rfl⟩
    obtain ⟨p, hp, rfl⟩ := (mem_items_iff .character).mp hcontent
    exact ⟨p, by simpa using hp, by simp [QuotedKind.quote]⟩
  · rintro ⟨p, hp, rfl⟩
    refine ⟨p.text, (mem_items_iff .character).mpr ⟨p, ?_, rfl⟩, ?_⟩
    · exact hp p List.mem_cons_self
    · simp [QuotedKind.quote]

end Pattern

namespace QuotedKind

variable {kind : QuotedKind} {ps qs : List Piece} {text : List Char}

theorem Encloses.body (h : kind.Encloses ps text) :
    text.tail.dropLast = ps.flatMap Piece.text := by
  rw [h.text, List.tail_cons, List.dropLast_concat]

/-- A literal is cut into pieces in one way only. -/
theorem Encloses.unique (hps : kind.Encloses ps text) (hqs : kind.Encloses qs text) : ps = qs :=
  Piece.eq_of_texts_eq hps.fits hqs.fits (hps.body.symm.trans hqs.body)

/-- A literal denotes its decoded pieces. -/
theorem Encloses.content {s : String} (h : kind.Encloses ps s.toList) :
    Literal.content s = String.ofList (ps.map Piece.decoded) := by
  rw [Literal.content, Literal.body, h.body, Literal.unescape_pieces h.fits]

end QuotedKind

namespace Splits

/-- Every token of a split matches the pattern of its kind. -/
theorem matched {cs rest : List Char} {ts : List (TokenKind × List Char)} (h : Splits cs ts rest) :
    ∀ t ∈ ts, t.2 ∈ Pattern.ofKind t.1 := by
  induction h with
  | done => simp
  | blank _ _ ih => exact ih
  | token _ htoken _ ih => exact List.forall_mem_cons.mpr ⟨htoken.matched, ih⟩

end Splits

namespace Token

/-- Every scanned token matches the pattern of its kind. -/
theorem matched_of_scan {source : String} {tokens : List Token} (h : scan source = .ok tokens) :
    ∀ t ∈ tokens, t.text.toList ∈ Pattern.ofKind t.kind := by
  intro t ht
  exact (Splits.of_scanFrom_ok h).matched t.reading (List.mem_map_of_mem ht)

end Token

section Writing

/-- The letter of the escape for a character inside quotes, where it is written as one. -/
def QuotedKind.escapeLetter? (kind : QuotedKind) (c : Char) : Option Char :=
  if c = '\x08' then some 'b'
  else if c = '\n' then some 'n'
  else if c = '\r' then some 'r'
  else if c = '\t' then some 't'
  else if c = '\\' ∨ c = kind.quote then some c
  else none

/-- The piece that a character is written as. -/
def Piece.ofChar (kind : QuotedKind) (c : Char) : Piece :=
  match kind.escapeLetter? c with
  | some letter => escape letter
  | none => plain c

namespace QuotedKind

/-- The literal of a text. -/
def write (kind : QuotedKind) (s : String) : String :=
  let pieces := s.toList.map (Piece.ofChar kind)
  String.ofList (kind.quote :: (pieces.flatMap Piece.text ++ [kind.quote]))

/-- The value of a literal that denotes a text. -/
def denote : QuotedKind → String → Scalar
  | character => .ofCharacter
  | string => .string

/-- Whether a text has a literal: every character for itself, and every text of printable
characters and the four control characters that have letters. -/
def CanWrite : QuotedKind → String → Prop
  | character, s => ∃ c, s = String.singleton c
  | string, s => ∀ c ∈ s.toList, Text.isPrintable c = true ∨ c ∈ ['\x08', '\n', '\r', '\t']

variable {kind : QuotedKind} {c : Char} {s : String}

theorem escapeLetter?_cases (kind : QuotedKind) (c : Char) :
    (∃ letter, kind.escapeLetter? c = some letter ∧ isEscapeLetter letter = true ∧
        Literal.decodeEscape? letter = some c) ∨
      (kind.escapeLetter? c = none ∧ c ∉ ['\x08', '\n', '\r', '\t'] ∧ c ≠ '\\' ∧
        c ≠ kind.quote) := by
  unfold escapeLetter?
  split
  · rename_i h
    exact Or.inl ⟨'b', rfl, rfl, by rw [h]; rfl⟩
  split
  · rename_i h
    exact Or.inl ⟨'n', rfl, rfl, by rw [h]; rfl⟩
  split
  · rename_i h
    exact Or.inl ⟨'r', rfl, rfl, by rw [h]; rfl⟩
  split
  · rename_i h
    exact Or.inl ⟨'t', rfl, rfl, by rw [h]; rfl⟩
  split
  · rename_i h
    refine Or.inl ⟨c, rfl, ?_⟩
    rcases h with rfl | rfl
    · exact ⟨rfl, rfl⟩
    · cases kind <;> exact ⟨rfl, rfl⟩
  · rename_i hb hn hr ht h
    refine Or.inr ⟨rfl, ?_, not_or.mp h⟩
    simp [hb, hn, hr, ht]

theorem decoded_ofChar (kind : QuotedKind) (c : Char) : (Piece.ofChar kind c).decoded = c := by
  rcases escapeLetter?_cases kind c with ⟨letter, hletter, -, hdecoded⟩ | ⟨hnone, -⟩
  · rw [Piece.ofChar, hletter, Piece.decoded, hdecoded]
    rfl
  · rw [Piece.ofChar, hnone, Piece.decoded]

theorem fits_ofChar (h : kind.CanWrite s) (hc : c ∈ s.toList) :
    (Piece.ofChar kind c).Fits kind := by
  rcases escapeLetter?_cases kind c with ⟨letter, hletter, hfits, -⟩ |
      ⟨hnone, hcontrol, hbackslash, hquote⟩
  · rw [Piece.ofChar, hletter]
    exact hfits
  · rw [Piece.ofChar, hnone]
    cases kind with
    | character =>
        simp only [List.mem_cons, List.not_mem_nil, or_false, not_or] at hcontrol
        simp only [Piece.Fits, isPlain, Pattern.isPlainCharacter, Bool.and_eq_true, bne_iff_ne]
        exact ⟨⟨⟨hquote, hbackslash⟩, hcontrol.2.1⟩, hcontrol.2.2.1⟩
    | string =>
        have hprint := (h c hc).resolve_right hcontrol
        simp only [Piece.Fits, isPlain, Pattern.isPlainInString, Bool.and_eq_true, bne_iff_ne]
        exact ⟨⟨hprint, hquote⟩, hbackslash⟩

theorem encloses_write (h : kind.CanWrite s) :
    kind.Encloses (s.toList.map (Piece.ofChar kind)) (kind.write s).toList where
  fits p hp := by
    obtain ⟨c, hc, rfl⟩ := List.mem_map.mp hp
    exact fits_ofChar h hc
  text := by rw [write, String.toList_ofList]

theorem content_write (h : kind.CanWrite s) : Literal.content (kind.write s) = s := by
  rw [(encloses_write h).content, List.map_map]
  have hdecoded : Piece.decoded ∘ Piece.ofChar kind = id := funext (decoded_ofChar kind)
  rw [hdecoded, List.map_id, String.ofList_toList]

theorem matched_write (h : kind.CanWrite s) :
    (kind.write s).toList ∈ Pattern.ofKind kind.tokenKind := by
  cases kind with
  | character =>
      have hencloses := encloses_write h
      obtain ⟨c, rfl⟩ := h
      exact Pattern.mem_character_iff.mpr ⟨Piece.ofChar .character c, by simpa using hencloses⟩
  | string => exact Pattern.mem_string_iff.mpr ⟨_, encloses_write h⟩

/-- A literal is scanned as one token. -/
theorem scan_write (h : kind.CanWrite s) : ∃ t, Token.scan (kind.write s) = .ok [t] ∧
    t.kind = kind.tokenKind ∧ t.text = kind.write s := by
  obtain ⟨cs, hcs⟩ : ∃ cs, (kind.write s).toList = kind.quote :: cs :=
    ⟨_, (encloses_write h).text⟩
  have hquote : kind.quote = '\'' ∨ kind.quote = '"' := by cases kind <;> simp [quote]
  have hblank : isBlank kind.quote = false := by cases kind <;> rfl
  have hkinds : kind.tokenKind ∈ Pattern.kindsAt (kind.quote :: cs) := by
    cases kind
    · exact List.mem_singleton_self _
    · exact List.mem_singleton_self _
  have hcandidate : Pattern.IsCandidate ((kind.write s).toList ++ []) kind.tokenKind
      (kind.write s).toList :=
    ⟨by rwa [List.append_nil, hcs], matched_write h, List.prefix_append _ _⟩
  have hnext := Pattern.next_of_isCandidate_quoted hquote hcandidate
    (by rw [List.append_nil, hcs])
  have hsplits := Splits.of_next hblank hnext .done
  rw [← hcs] at hsplits
  obtain ⟨tokens, hscan, hreading⟩ := ((Token.scan_iff_splits _).1 _).mpr hsplits
  obtain ⟨t, rfl, ht⟩ := List.map_eq_singleton_iff.mp hreading
  obtain ⟨hkind, htext⟩ := Prod.mk.inj ht
  exact ⟨t, hscan, hkind, String.toList_inj.mp htext⟩

end QuotedKind

end Writing

namespace Literal

open BlockScript.Grammar.Derivation

/-- What is written as a literal is scanned as one token, and reading the token gives it back. -/
theorem written_reads_back (kind : QuotedKind) {s : String} (h : kind.CanWrite s) :
    ∃ t, Token.scan (kind.write s) = .ok [t] ∧ t.kind = kind.tokenKind ∧ ∀ bound rest,
      (Grammar.primary (bound + 1)).Reads (t :: rest) (.literal (kind.denote s)) rest := by
  obtain ⟨t, hscan, hkind, htext⟩ := kind.scan_write h
  refine ⟨t, hscan, hkind, fun bound rest => ?_⟩
  have hconsistent := Token.isConsistent_of_scan hscan t List.mem_cons_self
  have hcontent : Unquoted t.text s := unquoted_iff.mpr (by rw [htext, kind.content_write h])
  have htoken : LiteralToken (t :: rest) (kind.denote s) rest := by
    cases kind with
    | character => exact .character hkind hcontent
    | string => exact .string hkind hcontent
  exact Grammar.reads_primary_literal htoken hconsistent bound

/-- **Scanning and decoding agree on every literal.** The text between the quotes of a scanned
string literal is cut into pieces in one way, which are the ones that the scanner steps over,
and it denotes the decoded pieces; a scanned character literal is one piece and denotes one
character.  Conversely every text of printable characters and the control characters that have
letters is read back from the string literal that it is written as, and every character from its
character literal. -/
theorem literals_read_as_written :
    (∀ source tokens, Token.scan source = .ok tokens → ∀ t ∈ tokens,
      (t.kind = .string → ∃! ps, QuotedKind.string.Encloses ps t.text.toList ∧
        content t.text = String.ofList (ps.map Piece.decoded)) ∧
      (t.kind = .character → ∃! p, QuotedKind.character.Encloses [p] t.text.toList ∧
        content t.text = String.singleton p.decoded)) ∧
    (∀ p : Piece, p.Fits .string → ∀ before cs, stringBody before (p.text ++ cs) =
      (stringBody (before + p.text.length) cs).map fun r => (p.text ++ r.1, r.2)) ∧
    (∀ s : String,
      (∀ c ∈ s.toList, Text.isPrintable c = true ∨ c ∈ ['\x08', '\n', '\r', '\t']) →
      ∃ t, Token.scan (QuotedKind.string.write s) = .ok [t] ∧ t.kind = .string ∧
        ∀ bound rest, (Grammar.primary (bound + 1)).Reads (t :: rest) (.literal (.string s)) rest) ∧
    (∀ c : Char, ∃ text t, Token.scan text = .ok [t] ∧ t.kind = .character ∧ ∀ bound rest,
      (Grammar.primary (bound + 1)).Reads (t :: rest)
        (.literal (.ofCharacter (String.singleton c))) rest) := by
  refine ⟨fun source tokens hscan t ht => ⟨fun hkind => ?_, fun hkind => ?_⟩,
    fun p => Lexeme.stringBody_piece, fun s => written_reads_back .string,
    fun c => ⟨_, written_reads_back .character ⟨c, rfl⟩⟩⟩
  · have hmatched := Token.matched_of_scan hscan t ht
    rw [hkind] at hmatched
    obtain ⟨ps, hps⟩ := Pattern.mem_string_iff.mp hmatched
    exact ⟨ps, ⟨hps, hps.content⟩, fun qs hqs => hqs.1.unique hps⟩
  · have hmatched := Token.matched_of_scan hscan t ht
    rw [hkind] at hmatched
    obtain ⟨p, hp⟩ := Pattern.mem_character_iff.mp hmatched
    exact ⟨p, ⟨hp, hp.content⟩, fun q hq => (List.cons.inj (hq.1.unique hp)).1⟩

/-- An escaped backslash before a letter is no escape of the letter. -/
theorem backslash_reads_as_written :
    (∀ c ∈ "\\n\t\"".toList, Text.isPrintable c = true ∨ c ∈ ['\x08', '\n', '\r', '\t']) ∧
      QuotedKind.string.write "\\n\t\"" = "\"\\\\n\\t\\\"\"" ∧
      ∃ t, Token.scan (QuotedKind.string.write "\\n\t\"") = .ok [t] ∧ t.kind = .string ∧
        ∀ bound rest, (Grammar.primary (bound + 1)).Reads (t :: rest)
          (.literal (.string "\\n\t\"")) rest := by
  have hprintable : ∀ c ∈ "\\n\t\"".toList,
      Text.isPrintable c = true ∨ c ∈ ['\x08', '\n', '\r', '\t'] := by
    intro c hc
    have hcases : c = '\\' ∨ c = 'n' ∨ c = '\t' ∨ c = '"' := by simpa using hc
    rcases hcases with rfl | rfl | rfl | rfl
    · exact .inl (by decide)
    · exact .inl (by decide)
    · exact .inr (by decide)
    · exact .inl (by decide)
  exact ⟨hprintable, by decide, literals_read_as_written.2.2.1 _ hprintable⟩

end Literal

end BlockScript
