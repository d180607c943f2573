import BlockScript.Proofs.Decimal.Reading
import BlockScript.Proofs.Grammar.Derivation
import BlockScript.Proofs.Token.Tiling

/-!
# How tokens are spelled

The kind of a scanned token and its text agree: a keyword is spelled by an identifier
only, and a bracket or a mark by an operator only.  So it makes no difference that some
rules look at the kind of a token and others at its text.

A numeral is an optional minus and digits, with a point among them where it is a decimal.  It makes
no use of the freedom with which numerals are read.

The content of a quoted literal is the one that its escapes say.
-/

namespace BlockScript

namespace Literal

open BlockScript.Grammar.Derivation

theorem mem_escapes_iff {letter c : Char} :
    (letter, c) ∈ escapes ↔ decodeEscape? letter = some c := by
  unfold decodeEscape?
  split
  all_goals simp_all [escapes, eq_comm]

theorem unescaped_unescape (cs : List Char) : Unescaped cs (unescape cs) := by
  fun_induction unescape cs with
  | case1 letter cs c hc ih =>
      exact .escape (mem_escapes_iff.mpr hc) ih
  | case2 letter cs hnone ih =>
      refine .plain (fun _ l hl d hd => ?_) ih
      cases hl
      rw [mem_escapes_iff, hnone] at hd
      cases hd
  | case3 c cs hc ih =>
      refine .plain (fun hback l hl d _ => ?_) ih
      cases cs with
      | nil =>
          cases hl
      | cons e cs =>
          exact hc e cs hback rfl
  | case4 =>
      exact .nil

/-- A text has one content. -/
theorem unescape_of_unescaped {cs ds : List Char} (h : Unescaped cs ds) :
    unescape cs = ds := by
  induction h with
  | nil =>
      rw [unescape]
  | @escape letter c cs ds hmem _ ih =>
      rw [unescape, mem_escapes_iff.mp hmem, ih]
  | @plain c cs ds hplain _ ih =>
      by_cases hback : c = '\\'
      · subst hback
        cases cs with
        | nil =>
            rw [unescape, ih]
            simp
        | cons e cs =>
            have hnone : decodeEscape? e = none := by
              rw [Option.eq_none_iff_forall_ne_some]
              intro d hd
              exact hplain rfl e rfl d (mem_escapes_iff.mpr hd)
            rw [unescape, hnone, ih]
      · rw [unescape, ih]
        intro e cs' he
        exact absurd he hback

theorem unquoted_iff {text s : String} : Unquoted text s ↔ content text = s := by
  constructor
  · rintro ⟨h⟩
    rw [content, body, unescape_of_unescaped h]
  · rintro rfl
    exact .intro (unescaped_unescape _)

end Literal

namespace Lexeme

theorem head_text {c : Char} {cs : List Char} {l : Lexeme} (h : next c cs = .ok l) :
    l.text.head? = some c := by
  have hsplit := next_split h
  cases htext : l.text with
  | nil =>
      exact absurd htext (next_text_ne_nil h)
  | cons c' text =>
      rw [htext, List.cons_append, List.cons.injEq] at hsplit
      rw [List.head?_cons, hsplit.1]

theorem kind_eq_identifier {c : Char} {cs : List Char} {l : Lexeme} (h : next c cs = .ok l)
    (hc : startsIdentifier c = true) : l.kind = .identifier := by
  rw [next, if_pos hc] at h
  cases h
  rfl

theorem number_kind_ne (sign cs : List Char) : (number sign cs).kind ≠ .identifier := by
  unfold number
  dsimp only
  split <;> simp

theorem operator_kind (c : Char) (cs : List Char) : (operator c cs).kind = .operator := by
  unfold operator
  split <;> rfl

theorem closeCharacter_kind {content cs : List Char} {l : Lexeme}
    (h : closeCharacter content cs = .ok l) : l.kind = .character := by
  unfold closeCharacter at h
  split at h
  · cases h
    rfl
  · cases h

theorem character_kind {cs : List Char} {l : Lexeme} (h : character cs = .ok l) :
    l.kind = .character := by
  unfold character at h
  split at h
  · split at h
    · exact closeCharacter_kind h
    · cases h
  · cases h
  · split at h
    · cases h
    · exact closeCharacter_kind h
  · cases h

/-- An identifier starts with a character that identifiers start with. -/
theorem startsIdentifier_head {c : Char} {cs : List Char} {l : Lexeme} (h : next c cs = .ok l)
    (hkind : l.kind = .identifier) : startsIdentifier c = true := by
  have hother : ∀ k : TokenKind, k ≠ .identifier → l.kind = k → startsIdentifier c = true := by
    rintro k hk rfl
    exact absurd hkind hk
  unfold next at h
  split at h
  · assumption
  split at h
  · cases h
    unfold minus at hkind hother
    split at hkind
    · split at hkind
      · exact absurd hkind (number_kind_ne _ _)
      · cases hkind
    · cases hkind
  split at h
  · cases h
    exact absurd hkind (number_kind_ne _ _)
  split at h
  · exact hother .character nofun (character_kind h)
  split at h
  · cases hbody : stringBody 1 cs with
    | error e =>
        rw [hbody] at h
        cases h
    | ok r =>
        rw [hbody] at h
        cases h
        cases hkind
  · cases h
    exact hother .operator nofun (operator_kind c cs)

/-- Whether a character starts neither an identifier nor a literal. -/
def startsMark (c : Char) : Bool :=
  !startsIdentifier c && c != '-' && !isDigit c && c != '\'' && c != '"'

theorem kind_eq_operator {c : Char} {cs : List Char} {l : Lexeme} (h : next c cs = .ok l)
    (hc : startsMark c = true) : l.kind = .operator := by
  simp only [startsMark, Bool.and_eq_true, bne_iff_ne, Bool.not_eq_true'] at hc
  obtain ⟨⟨⟨⟨hid, hminus⟩, hdigit⟩, hquote⟩, hdouble⟩ := hc
  rw [next, if_neg (by simp [hid]), if_neg hminus, if_neg (by simp [hdigit]), if_neg hquote,
    if_neg hdouble] at h
  cases h
  exact operator_kind c cs

end Lexeme

namespace Token

/-- The sign of a numeral. -/
def IsSign (sign : List Char) : Prop := sign = [] ∨ sign = ['-']

/-- A row of at least one digit. -/
def IsDigits (ds : List Char) : Prop := ds ≠ [] ∧ ∀ c ∈ ds, Text.isDigit c = true

/-- The text of a numeral of a kind. -/
inductive IsNumeral : TokenKind → List Char → Prop
  | integer {sign ds : List Char} : IsSign sign → IsDigits ds → IsNumeral .integer (sign ++ ds)
  | decimal {sign whole fraction : List Char} : IsSign sign → IsDigits whole →
      IsDigits fraction → IsNumeral .decimal (sign ++ (whole ++ '.' :: fraction))

end Token

section Numerals

namespace Lexeme

open Token

theorem isDigits_splitWhole {c : Char} {cs : List Char} (hc : isDigit c = true) :
    IsDigits (splitWhole (c :: cs)).1 := by
  refine ⟨splitWhole_ne_nil hc, ?_⟩
  unfold splitWhole
  split
  · simp [Text.isDigit]
  · exact List.all_eq_true.mp List.all_takeWhile

theorem splitFraction_eq (cs : List Char) :
    (splitFraction cs).1 = [] ∨ ∃ ds, (splitFraction cs).1 = '.' :: ds ∧ IsDigits ds := by
  unfold splitFraction
  split
  · rename_i c cs
    split
    · rename_i hc
      refine Or.inr ⟨_, rfl, by simp, ?_⟩
      intro d hd
      rcases List.mem_cons.mp hd with rfl | hd
      · exact hc
      · exact List.all_eq_true.mp List.all_takeWhile d hd
    · exact Or.inl rfl
  · exact Or.inl rfl

theorem isNumeral_number {sign cs : List Char} {c : Char} (hc : isDigit c = true)
    (hsign : IsSign sign) :
    IsNumeral (number sign (c :: cs)).kind (number sign (c :: cs)).text := by
  have hwhole : IsDigits (splitWhole (c :: cs)).1 := isDigits_splitWhole hc
  unfold number
  dsimp only
  rcases splitFraction_eq (splitWhole (c :: cs)).2 with hfraction | ⟨ds, hfraction, hds⟩
  · rw [hfraction, List.append_nil]
    exact .integer hsign hwhole
  · rw [hfraction, List.append_assoc]
    exact .decimal hsign hwhole hds

/-- Every number that a text starts with is a numeral. -/
theorem isNumeral_next {c : Char} {cs : List Char} {l : Lexeme} (h : next c cs = .ok l)
    (hkind : l.kind = .integer ∨ l.kind = .decimal) : IsNumeral l.kind l.text := by
  -- The other lexemes are excluded by their kind.
  have hnumber : ∀ k : TokenKind, k ≠ .integer → k ≠ .decimal → l.kind = k →
      IsNumeral l.kind l.text := by
    rintro k hinteger hdecimal rfl
    rcases hkind with h | h
    · exact absurd h hinteger
    · exact absurd h hdecimal
  unfold next at h
  split at h
  · cases h
    exact hnumber .identifier nofun nofun rfl
  split at h
  · cases h
    unfold minus at hnumber ⊢
    split
    · split
      · rename_i hc
        exact isNumeral_number hc (Or.inr rfl)
      · rename_i hc
        simp only [hc] at hnumber
        exact hnumber .operator nofun nofun rfl
    · exact hnumber .operator nofun nofun rfl
  split at h
  · rename_i hc
    cases h
    exact isNumeral_number hc (Or.inl rfl)
  split at h
  · exact hnumber .character nofun nofun (character_kind h)
  split at h
  · cases hbody : stringBody 1 cs with
    | error e =>
        rw [hbody] at h
        cases h
    | ok r =>
        rw [hbody] at h
        cases h
        exact hnumber .string nofun nofun rfl
  · cases h
    exact hnumber .operator nofun nofun (operator_kind c cs)

end Lexeme

namespace Token

theorem splitSign_of_isSign {sign ds : List Char} (hsign : IsSign sign) (hds : IsDigits ds)
    (rest : List Char) :
    ∃ negative, Text.splitSign (sign ++ (ds ++ rest)) = (negative, ds ++ rest) := by
  obtain ⟨hne, hdigits⟩ := hds
  obtain ⟨d, ds, rfl⟩ := List.exists_cons_of_ne_nil hne
  rcases hsign with rfl | rfl
  · exact ⟨false, Decimal.splitSign_of_isDigit (hdigits d List.mem_cons_self) _⟩
  · exact ⟨true, rfl⟩

/-- A decimal of source text has a digit of its exponent for each digit behind the point. -/
theorem ofChars?_pointed {sign whole fraction : List Char} (hsign : IsSign sign)
    (hwhole : IsDigits whole) (hfraction : IsDigits fraction) :
    ∃ negative, Decimal.ofChars? (sign ++ (whole ++ '.' :: fraction)) =
      Decimal.finiteInRange?
        ⟨negative, Text.ofDigits (whole ++ fraction), 0 - fraction.length⟩ := by
  obtain ⟨negative, hsplit⟩ := splitSign_of_isSign hsign hwhole ('.' :: fraction)
  have hspecial : Decimal.readSpecial? negative
      ((whole ++ '.' :: fraction).map Decimal.lowerAscii) = none := by
    obtain ⟨hne, hdigits⟩ := hwhole
    obtain ⟨d, ds, rfl⟩ := List.exists_cons_of_ne_nil hne
    exact Decimal.readSpecial?_of_isDigit (hdigits d List.mem_cons_self) negative _
  have hpointed : IsPointed (whole ++ '.' :: fraction) (whole ++ fraction) whole fraction :=
    ⟨by rw [pointed, if_neg hfraction.1], hwhole.1, hwhole.2, hfraction.2, rfl⟩
  have hread := readFinite?_pointed negative hpointed (Or.inl rfl) (e := 0) rfl
  rw [List.append_nil] at hread
  refine ⟨negative, ?_⟩
  unfold Decimal.ofChars?
  rw [hsplit]
  simp only [hspecial, hread, Option.bind_some]

/-- A numeral of source text has none of the freedom that numerals may have. -/
theorem IsNumeral.isPlain {kind : TokenKind} {cs : List Char} (h : IsNumeral kind cs) :
    ∀ c ∈ cs, Text.IsPlain c := by
  have hsigned : ∀ {sign : List Char}, IsSign sign → ∀ c ∈ sign, Text.IsPlain c := by
    rintro sign (rfl | rfl) c hc
    · cases hc
    · obtain rfl := List.mem_singleton.mp hc
      decide
  intro c hc
  cases h with
  | integer hsign hds =>
      rcases List.mem_append.mp hc with hc | hc
      · exact hsigned hsign c hc
      · exact Text.isPlain_of_isDigit (hds.2 c hc)
  | decimal hsign hwhole hfraction =>
      rcases List.mem_append.mp hc with hc | hc
      · exact hsigned hsign c hc
      rcases List.mem_append.mp hc with hc | hc
      · exact Text.isPlain_of_isDigit (hwhole.2 c hc)
      rcases List.mem_cons.mp hc with rfl | hc
      · decide
      · exact Text.isPlain_of_isDigit (hfraction.2 c hc)

theorem IsNumeral.ofText? {kind : TokenKind} {text : String} (h : IsNumeral kind text.toList) :
    Decimal.ofText? text = Decimal.ofChars? text.toList := by
  rw [Decimal.ofText?, Text.plainDecimal_eq_self h.isPlain]

end Token

end Numerals

namespace Grammar

/-- The marks and brackets that rules look for. -/
def marks : List String := ["=", ":", ";", ",", "(", ")", "[", "]"]

theorem starts_of_mem_keywords : ∀ s ∈ keywords,
    s.toList.head?.any Lexeme.startsIdentifier = true := by
  decide

theorem starts_of_mem_marks : ∀ s ∈ marks, s.toList.head?.any Lexeme.startsMark = true := by
  decide

end Grammar

namespace Token

open Grammar

/-- A decimal of source text is finite. -/
theorem finite_of_ofText? {text : String} {d : Decimal} (htext : IsNumeral .decimal text.toList)
    (h : Decimal.ofText? text = some d) : ∃ s, d = .finite s := by
  rw [htext.ofText?] at h
  generalize text.toList = cs at htext h
  cases htext with
  | decimal hsign hwhole hfraction =>
      obtain ⟨negative, hread⟩ := ofChars?_pointed hsign hwhole hfraction
      rw [hread, Decimal.finiteInRange?] at h
      split at h
      · cases h
        exact ⟨_, rfl⟩
      · cases h

/-- Keywords are spelled by identifiers and marks by operators, names do not start with a
mark, and decimals are no special ones. -/
structure IsConsistent (t : Token) : Prop where
  keyword : t.text ∈ keywords → t.kind = .identifier
  mark : t.text ∈ marks → t.kind = .operator
  identifier : t.kind = .identifier → t.text ≠ "$switch"
  decimal : t.kind = .decimal → ∀ d, Decimal.ofText? t.text = some d → ∃ s, d = .finite s

theorem isConsistent_ofLexeme {p : Position} {c : Char} {cs : List Char} {l : Lexeme}
    (h : Lexeme.next c cs = .ok l) : (ofLexeme p l).IsConsistent where
  keyword hmem := by
    have hstart := starts_of_mem_keywords _ hmem
    rw [ofLexeme, String.toList_ofList, Lexeme.head_text h] at hstart
    exact Lexeme.kind_eq_identifier h hstart
  mark hmem := by
    have hstart := starts_of_mem_marks _ hmem
    rw [ofLexeme, String.toList_ofList, Lexeme.head_text h] at hstart
    exact Lexeme.kind_eq_operator h hstart
  identifier hkind htext := by
    have hstarts := Lexeme.startsIdentifier_head h hkind
    have hhead : (String.ofList l.text).toList.head? = "$switch".toList.head? :=
      congrArg (fun s => s.toList.head?) htext
    rw [String.toList_ofList, Lexeme.head_text h] at hhead
    cases hhead
    exact absurd hstarts (by decide)
  decimal hkind d hd := by
    have hkind' : l.kind = .decimal := hkind
    have hnumeral := Lexeme.isNumeral_next h (Or.inr hkind')
    rw [hkind'] at hnumeral
    refine finite_of_ofText? ?_ hd
    rwa [ofLexeme, String.toList_ofList]

/-- All tokens of a text are consistent. -/
theorem isConsistent_of_scan {text : String} {tokens : List Token}
    (h : scan text = .ok tokens) : ∀ t ∈ tokens, t.IsConsistent := by
  intro t ht
  obtain ⟨-, -, hnext⟩ := (Tiled.of_scan h).isCut t ht
  exact isConsistent_ofLexeme hnext

end Token

end BlockScript
