import BlockScript.Decimal.Text

/-!
# The text of a decimal reads back

Every form in which a decimal is written is a row of digits with a point somewhere in it, and
perhaps a power of ten behind that.  `readFinite?_pointed` reads all of these forms at once.
What remains for each of them is to say which digits stand in front of the point and which
behind it.

The main statement is `ofText?_toText`: sign, coefficient and exponent come back as they were.
-/

namespace BlockScript

namespace Text

/-- A character that stays as it is when a numeral is brought into the form of source text. -/
def IsPlain (c : Char) : Prop := isSpace c = false ∧ c ≠ '_' ∧ asciiDigit c = c

instance (c : Char) : Decidable (IsPlain c) := inferInstanceAs (Decidable (_ ∧ _ ∧ _))

theorem decimalDigit_digitValue {c : Char} (h : isDigit c = true) :
    decimalDigit (digitValue c) = c := by
  simp only [isDigit, Bool.and_eq_true, decide_eq_true_eq, Char.le_def,
    UInt32.le_iff_toNat_le] at h
  have hlow : 48 ≤ c.toNat := h.1
  have hsum : 48 + (c.toNat - 48) = c.toNat := by omega
  rw [decimalDigit, digitValue, hsum, Char.ofNat_toNat]

theorem isPlain_of_isDigit {c : Char} (h : isDigit c = true) : IsPlain c := by
  have hvalue := anyDigitValue?_of_isDigit h
  simp only [isDigit, Bool.and_eq_true, decide_eq_true_eq, Char.le_def,
    UInt32.le_iff_toNat_le] at h
  have hlow : 48 ≤ c.toNat := h.1
  have hhigh : c.toNat ≤ 57 := h.2
  refine ⟨?_, ?_, ?_⟩
  · simp only [isSpace, Bool.or_eq_false_iff, Bool.and_eq_false_iff, decide_eq_false_iff_not,
      beq_eq_false_iff_ne]
    omega
  · rintro rfl
    exact absurd hhigh (by decide)
  · rw [asciiDigit, hvalue]
    refine decimalDigit_digitValue ?_
    simpa only [isDigit, Bool.and_eq_true, decide_eq_true_eq, Char.le_def,
      UInt32.le_iff_toNat_le] using h

theorem dropWhile_eq_self {p : Char → Bool} {cs : List Char} (h : ∀ c ∈ cs, p c = false) :
    cs.dropWhile p = cs := by
  cases cs with
  | nil => rfl
  | cons c cs => rw [List.dropWhile_cons_of_neg (by simp [h c List.mem_cons_self])]

theorem plainDecimal_eq_self {cs : List Char} (h : ∀ c ∈ cs, IsPlain c) : plainDecimal cs = cs := by
  have hspace : ∀ c ∈ cs, isSpace c = false := fun c hc => (h c hc).1
  have htrim : trim isSpace cs = cs := by
    rw [trim, dropWhile_eq_self hspace,
      dropWhile_eq_self fun c hc => hspace c (List.mem_reverse.mp hc), List.reverse_reverse]
  have hfilter : (cs.filter fun c => c ≠ '_') = cs :=
    List.filter_eq_self.mpr fun c hc => by simpa using (h c hc).2.1
  rw [plainDecimal, htrim, hfilter]
  exact List.map_congr_left (fun c hc => (h c hc).2.2) |>.trans (List.map_id cs)

/-- A row without an underscore is grouped where it is a row of digits. -/
theorem groupedDigits_of_plain {cs : List Char} (h : ∀ c ∈ cs, IsPlain c) (behindDigit : Bool) :
    groupedDigits behindDigit cs =
      if (behindDigit = true ∨ cs ≠ []) ∧ cs.all isDigit then some cs else none := by
  induction cs generalizing behindDigit with
  | nil => cases behindDigit <;> rfl
  | cons c cs ih =>
      obtain ⟨hc, hcs⟩ := List.forall_mem_cons.mp h
      rw [groupedDigits, if_neg hc.2.1, ih hcs]
      cases hdigit : isDigit c with
      | false => simp [hdigit]
      | true =>
          by_cases hall : cs.all isDigit = true
          · simp [hdigit, hall]
          · simp [hdigit, hall]

theorem mem_of_mem_splitSign {cs : List Char} {c : Char} (h : c ∈ (splitSign cs).2) : c ∈ cs := by
  unfold splitSign at h
  split at h
  · exact List.mem_cons_of_mem _ h
  · exact List.mem_cons_of_mem _ h
  · exact h

/-- A numeral in the form of source text is read as it stands. -/
theorem readLooseInt?_of_plain {cs : List Char} (h : ∀ c ∈ cs, IsPlain c) :
    readLooseInt? cs = readInt? cs := by
  have hform : cs.map asciiForm = cs := by
    refine (List.map_congr_left fun c hc => ?_).trans (List.map_id cs)
    obtain ⟨hspace, _, hdigit⟩ := h c hc
    unfold asciiForm
    split
    · rfl
    · rw [if_neg (by simp [hspace]), hdigit, id]
  have hspace : ∀ c ∈ cs, isAsciiSpace c = false := by
    intro c hc
    have hc' := (h c hc).1
    simp only [isSpace, Bool.or_eq_false_iff, Bool.and_eq_false_iff, decide_eq_false_iff_not,
      beq_eq_false_iff_ne] at hc'
    simp only [isAsciiSpace, Bool.or_eq_false_iff, Bool.and_eq_false_iff,
      decide_eq_false_iff_not, beq_eq_false_iff_ne]
    refine ⟨?_, by omega⟩
    rintro rfl
    exact absurd hc' (by decide)
  have htrim : trim isAsciiSpace cs = cs := by
    rw [trim, dropWhile_eq_self hspace,
      dropWhile_eq_self fun c hc => hspace c (List.mem_reverse.mp hc), List.reverse_reverse]
  have hrest : ∀ c ∈ (splitSign cs).2, IsPlain c := fun c hc => h c (mem_of_mem_splitSign hc)
  unfold readLooseInt? readInt?
  rw [hform, htrim]
  dsimp only
  rw [groupedDigits_of_plain hrest]
  generalize (splitSign cs).1 = negative
  generalize (splitSign cs).2 = ds
  by_cases hdigits : ds ≠ [] ∧ ds.all isDigit = true
  · by_cases hlength : ds.length ≤ digitLimit
    · simp [hdigits, hlength]
    · simp [hdigits, hlength]
  · rw [if_neg fun hds => hdigits ⟨hds.1.resolve_left Bool.false_ne_true, hds.2⟩,
      if_neg fun hds => hdigits ⟨hds.1, hds.2.1⟩]
    rfl

/-- What is grouped is a row of digits. -/
theorem isDigit_of_groupedDigits {behindDigit : Bool} {cs ds : List Char}
    (h : groupedDigits behindDigit cs = some ds) : ∀ c ∈ ds, isDigit c = true := by
  induction cs generalizing behindDigit ds with
  | nil =>
      cases behindDigit with
      | true =>
          cases h
          exact nofun
      | false => cases h
  | cons c cs ih =>
      unfold groupedDigits at h
      split at h
      · split at h
        · exact ih h
        · cases h
      split at h
      · rename_i hdigit
        obtain ⟨rest, hrest, rfl⟩ := Option.map_eq_some_iff.mp h
        exact List.forall_mem_cons.mpr ⟨hdigit, ih hrest⟩
      · cases h

theorem isDigit_of_mem_digits {n : Nat} {c : Char} (h : c ∈ digits n) : isDigit c = true :=
  List.all_eq_true.mp (all_isDigit_digits n) c h

theorem ofDigits_zeros (n : Nat) (ds : List Char) :
    ofDigits (List.replicate n '0' ++ ds) = ofDigits ds := by
  induction n with
  | zero => rfl
  | succ n ih => exact ih

end Text

open Text

section Pointed

/-- Digits with a point in front of the last of them, if there are any behind it. -/
def pointed (whole fraction : List Char) : List Char :=
  if fraction = [] then whole else whole ++ '.' :: fraction

/-- The digits of a coefficient as they stand in front of and behind a point. -/
structure IsPointed (text ds whole fraction : List Char) : Prop where
  text_eq : text = pointed whole fraction
  whole_ne_nil : whole ≠ []
  whole_digits : ∀ c ∈ whole, isDigit c = true
  fraction_digits : ∀ c ∈ fraction, isDigit c = true
  ofDigits_eq : ofDigits (whole ++ fraction) = ofDigits ds

variable {ds whole fraction : List Char}

theorem positionalText_isPointed (n : Nat) (hds : ∀ c ∈ ds, isDigit c = true) (hne : ds ≠ []) :
    ∃ whole fraction, IsPointed (Scaled.positionalText ds n) ds whole fraction ∧
      fraction.length = n := by
  unfold Scaled.positionalText
  by_cases hn : n = 0
  · rw [if_pos hn]
    exact ⟨ds, [], ⟨rfl, hne, hds, nofun, by rw [List.append_nil]⟩, hn.symm⟩
  rw [if_neg hn]
  by_cases hlt : n < ds.length
  · rw [if_pos hlt]
    have hlength : (ds.drop (ds.length - n)).length = n := by
      rw [List.length_drop]
      omega
    have hfraction : ds.drop (ds.length - n) ≠ [] := by
      intro h
      rw [h] at hlength
      exact hn hlength.symm
    refine ⟨ds.take (ds.length - n), ds.drop (ds.length - n), ⟨?_, ?_, ?_, ?_, ?_⟩, hlength⟩
    · rw [pointed, if_neg hfraction]
    · intro h
      have htake := congrArg List.length h
      rw [List.length_take, List.length_nil] at htake
      omega
    · exact fun c hc => hds c (List.mem_of_mem_take hc)
    · exact fun c hc => hds c (List.mem_of_mem_drop hc)
    · rw [List.take_append_drop]
  · rw [if_neg hlt]
    have hfraction : List.replicate (n - ds.length) '0' ++ ds ≠ [] := by simp [hne]
    refine ⟨['0'], List.replicate (n - ds.length) '0' ++ ds, ⟨?_, by simp, ?_, ?_, ?_⟩, ?_⟩
    · rw [pointed, if_neg hfraction]
      rfl
    · intro c hc
      rw [List.mem_singleton.mp hc]
      rfl
    · intro c hc
      rcases List.mem_append.mp hc with hc | hc
      · rw [List.eq_of_mem_replicate hc]
        rfl
      · exact hds c hc
    · exact (ofDigits_zeros 1 _).trans (ofDigits_zeros _ ds)
    · rw [List.length_append, List.length_replicate]
      omega

theorem scientificDigits_isPointed (hds : ∀ c ∈ ds, isDigit c = true) (hne : ds ≠ []) :
    ∃ whole fraction, IsPointed (Scaled.scientificDigits ds) ds whole fraction ∧
      fraction.length + 1 = ds.length := by
  match ds, hne with
  | [d], _ => exact ⟨[d], [], ⟨rfl, by simp, hds, nofun, rfl⟩, rfl⟩
  | d :: e :: ds, _ =>
      refine ⟨[d], e :: ds, ⟨rfl, by simp, ?_, ?_, rfl⟩, rfl⟩
      · exact fun c hc => hds c (by simp_all)
      · exact fun c hc => hds c (List.mem_cons_of_mem d hc)

theorem takeWhile_append_digits {rest : List Char} (hds : ∀ c ∈ ds, isDigit c = true)
    (hrest : rest.takeWhile isDigit = []) : (ds ++ rest).takeWhile isDigit = ds := by
  rw [List.takeWhile_append_of_pos hds, hrest, List.append_nil]

theorem dropWhile_append_digits {rest : List Char} (hds : ∀ c ∈ ds, isDigit c = true)
    (hrest : rest.dropWhile isDigit = rest) : (ds ++ rest).dropWhile isDigit = rest := by
  rw [List.dropWhile_append_of_pos hds, hrest]

/-- What may follow the digits: nothing, or a power of ten. -/
def IsTail (rest : List Char) : Prop := rest = [] ∨ ∃ cs, rest = 'E' :: cs

theorem IsTail.takeWhile {rest : List Char} (h : IsTail rest) : rest.takeWhile isDigit = [] := by
  rcases h with rfl | ⟨cs, rfl⟩ <;> rfl

theorem IsTail.dropWhile {rest : List Char} (h : IsTail rest) : rest.dropWhile isDigit = rest := by
  rcases h with rfl | ⟨cs, rfl⟩ <;> rfl

theorem IsTail.splitFraction {rest : List Char} (h : IsTail rest) :
    Decimal.splitFraction rest = ([], rest) := by
  rcases h with rfl | ⟨cs, rfl⟩ <;> rfl

/-- Digits with a point, and perhaps a power of ten, read as the decimal that they write. -/
theorem readFinite?_pointed {text rest : List Char} {e : Int} (negative : Bool)
    (h : IsPointed text ds whole fraction) (hrest : IsTail rest)
    (he : Decimal.readExponent? rest = some e) :
    Decimal.readFinite? negative (text ++ rest) =
      some ⟨negative, ofDigits ds, e - fraction.length⟩ := by
  obtain ⟨htext, hne, hwhole, hfraction, hdigits⟩ := h
  obtain ⟨behind, hbehind, hsplit, htake, hdrop⟩ : ∃ behind, text ++ rest = whole ++ behind ∧
      Decimal.splitFraction behind = (fraction, rest) ∧ behind.takeWhile isDigit = [] ∧
      behind.dropWhile isDigit = behind := by
    rw [htext, pointed]
    by_cases hempty : fraction = []
    · rw [if_pos hempty, hempty]
      exact ⟨rest, rfl, hrest.splitFraction, hrest.takeWhile, hrest.dropWhile⟩
    · rw [if_neg hempty]
      refine ⟨'.' :: (fraction ++ rest), by simp, ?_, rfl, rfl⟩
      rw [Decimal.splitFraction, takeWhile_append_digits hfraction hrest.takeWhile,
        dropWhile_append_digits hfraction hrest.dropWhile]
  rw [Decimal.readFinite?, hbehind, takeWhile_append_digits hwhole htake,
    dropWhile_append_digits hwhole hdrop, hsplit]
  simp only [hne, false_and, if_false, he, Option.map_some, hdigits]

end Pointed

namespace Scaled

theorem isTail_exponentText (e : Int) : IsTail (exponentText e) := Or.inr ⟨_, rfl⟩

theorem readExponent?_exponentText (e : Int) :
    Decimal.readExponent? (exponentText e) = some e := by
  have hne : digits e.natAbs ≠ [] := digits_ne_nil _
  by_cases he : e < 0
  · have hsplit : splitSign ('-' :: digits e.natAbs) = (true, digits e.natAbs) := rfl
    have hvalue : -(e.natAbs : Int) = e := by omega
    simp only [exponentText, if_pos he, Decimal.readExponent?, hsplit, all_isDigit_digits,
      ofDigits_digits, hvalue]
    simp [hne]
  · have hsplit : splitSign ('+' :: digits e.natAbs) = (false, digits e.natAbs) := rfl
    have hvalue : (e.natAbs : Int) = e := by omega
    simp only [exponentText, if_neg he, Decimal.readExponent?, hsplit, all_isDigit_digits,
      ofDigits_digits, hvalue]
    simp [hne]

/-- The text of a decimal without its sign: digits with a point, and what follows them. -/
theorem magnitudeText_isPointed (d : Scaled) :
    ∃ text rest whole fraction e, d.magnitudeText = text ++ rest ∧
      IsPointed text (digits d.coefficient) whole fraction ∧ IsTail rest ∧
      Decimal.readExponent? rest = some e ∧ e - fraction.length = d.exponent := by
  have hds : ∀ c ∈ digits d.coefficient, isDigit c = true := fun _ => isDigit_of_mem_digits
  have hne : digits d.coefficient ≠ [] := digits_ne_nil _
  unfold magnitudeText
  dsimp only
  split
  · rename_i hpositional
    obtain ⟨whole, fraction, hpointed, hlength⟩ :=
      positionalText_isPointed d.exponent.natAbs hds hne
    refine ⟨_, [], whole, fraction, 0, (List.append_nil _).symm, hpointed, Or.inl rfl, rfl, ?_⟩
    omega
  · obtain ⟨whole, fraction, hpointed, hlength⟩ := scientificDigits_isPointed hds hne
    refine ⟨_, _, whole, fraction, d.adjustedExponent, rfl, hpointed, isTail_exponentText _,
      readExponent?_exponentText _, ?_⟩
    unfold adjustedExponent digitCount
    omega

theorem readFinite?_magnitudeText (d : Scaled) :
    Decimal.readFinite? d.negative d.magnitudeText = some d := by
  obtain ⟨text, rest, whole, fraction, e, htext, hpointed, hrest, he, hexponent⟩ :=
    d.magnitudeText_isPointed
  rw [htext, readFinite?_pointed d.negative hpointed hrest he, ofDigits_digits, hexponent]

/-- The text of a decimal without its sign starts with a digit. -/
theorem magnitudeText_cons (d : Scaled) :
    ∃ c cs, d.magnitudeText = c :: cs ∧ isDigit c = true := by
  obtain ⟨text, rest, whole, fraction, e, htext, hpointed, -⟩ := d.magnitudeText_isPointed
  obtain ⟨c, cs, rfl⟩ := List.exists_cons_of_ne_nil hpointed.whole_ne_nil
  have hc : isDigit c = true := hpointed.whole_digits c List.mem_cons_self
  rw [htext, hpointed.text_eq, pointed]
  split
  · exact ⟨c, _, rfl, hc⟩
  · exact ⟨c, _, rfl, hc⟩

theorem isPlain_exponentText {e : Int} {c : Char} (h : c ∈ exponentText e) : IsPlain c := by
  have hmarks : IsPlain 'E' ∧ IsPlain '-' ∧ IsPlain '+' := by decide
  rcases List.mem_cons.mp h with rfl | h
  · exact hmarks.1
  rcases List.mem_cons.mp h with rfl | h
  · split
    · exact hmarks.2.1
    · exact hmarks.2.2
  · exact isPlain_of_isDigit (isDigit_of_mem_digits h)

theorem isPlain_pointed {text ds whole fraction : List Char} {c : Char}
    (h : IsPointed text ds whole fraction) (hc : c ∈ text) : IsPlain c := by
  rw [h.text_eq, pointed] at hc
  split at hc
  · exact isPlain_of_isDigit (h.whole_digits c hc)
  · rcases List.mem_append.mp hc with hc | hc
    · exact isPlain_of_isDigit (h.whole_digits c hc)
    rcases List.mem_cons.mp hc with rfl | hc
    · decide
    · exact isPlain_of_isDigit (h.fraction_digits c hc)

theorem isPlain_toChars (d : Scaled) {c : Char} (h : c ∈ d.toChars) : IsPlain c := by
  have hmagnitude : ∀ c ∈ d.magnitudeText, IsPlain c := by
    intro c hc
    unfold magnitudeText at hc
    have hds : ∀ c ∈ digits d.coefficient, isDigit c = true := fun _ => isDigit_of_mem_digits
    have hne : digits d.coefficient ≠ [] := digits_ne_nil _
    dsimp only at hc
    split at hc
    · obtain ⟨_, _, hpointed, _⟩ := positionalText_isPointed d.exponent.natAbs hds hne
      exact isPlain_pointed hpointed hc
    · obtain ⟨_, _, hpointed, _⟩ := scientificDigits_isPointed hds hne
      rcases List.mem_append.mp hc with hc | hc
      · exact isPlain_pointed hpointed hc
      · exact isPlain_exponentText hc
  unfold toChars at h
  split at h
  · rcases List.mem_cons.mp h with rfl | h
    · decide
    · exact hmagnitude c h
  · exact hmagnitude c h

end Scaled

namespace Decimal

/-- The exponent of a finite decimal is in range; special numbers have none. -/
def IsInRange : Decimal → Prop
  | finite d => d.isInRange = true
  | _ => True

instance : DecidablePred IsInRange
  | finite d => inferInstanceAs (Decidable (d.isInRange = true))
  | infinite _ => .isTrue trivial
  | undefined .. => .isTrue trivial

theorem splitSign_of_isDigit {c : Char} (h : isDigit c = true) (cs : List Char) :
    splitSign (c :: cs) = (false, c :: cs) := by
  unfold splitSign
  split
  · rename_i heq
    cases heq
    cases h
  · rename_i heq
    cases heq
    cases h
  · rfl

theorem lowerAscii_of_isDigit {c : Char} (h : isDigit c = true) : lowerAscii c = c := by
  rw [lowerAscii, if_neg]
  simp only [isDigit, Bool.and_eq_true, decide_eq_true_eq, Char.le_def,
    UInt32.le_iff_toNat_le] at h ⊢
  have hhigh : c.val.toNat ≤ 57 := h.2
  have hletter : 'A'.val.toNat = 65 := rfl
  omega

theorem readSpecial?_of_isDigit {c : Char} (h : isDigit c = true) (negative : Bool)
    (cs : List Char) : readSpecial? negative ((c :: cs).map lowerAscii) = none := by
  rw [List.map_cons, lowerAscii_of_isDigit h]
  generalize cs.map lowerAscii = rest
  unfold readSpecial?
  split
  · rename_i heq
    cases heq
    cases h
  · rename_i heq
    cases heq
    cases h
  · rename_i heq
    cases heq
    cases h
  · rfl

theorem splitSign_toChars (d : Scaled) :
    splitSign d.toChars = (d.negative, d.magnitudeText) := by
  obtain ⟨c, cs, hcons, hc⟩ := d.magnitudeText_cons
  unfold Scaled.toChars
  cases d.negative with
  | true => rfl
  | false =>
      rw [if_neg Bool.false_ne_true, hcons]
      exact splitSign_of_isDigit hc cs

theorem ofText?_toText_finite {d : Scaled} (h : d.isInRange = true) :
    ofText? (finite d).toText = some (finite d) := by
  obtain ⟨c, cs, hcons, hc⟩ := d.magnitudeText_cons
  have hspecial : readSpecial? d.negative (d.magnitudeText.map lowerAscii) = none := by
    rw [hcons]
    exact readSpecial?_of_isDigit hc d.negative cs
  rw [ofText?, toText, String.toList_ofList, plainDecimal_eq_self fun _ => d.isPlain_toChars,
    ofChars?, splitSign_toChars]
  simp only [hspecial, d.readFinite?_magnitudeText, Option.bind_some]
  rw [finiteInRange?, if_pos h]

/-- The digits that an undefined number carries. -/
def payloadDigits (payload : Nat) : List Char := if payload = 0 then [] else digits payload

theorem toList_payloadText (payload : Nat) :
    (payloadText payload).toList = payloadDigits payload := by
  unfold payloadText payloadDigits
  split
  · rfl
  · exact String.toList_ofList

theorem isDigit_of_mem_payloadDigits {payload : Nat} {c : Char}
    (h : c ∈ payloadDigits payload) : isDigit c = true := by
  unfold payloadDigits at h
  split at h
  · cases h
  · exact isDigit_of_mem_digits h

theorem readPayload?_payloadDigits (negative signals : Bool) (payload : Nat) :
    readPayload? negative signals (payloadDigits payload) =
      some (undefined negative signals payload) := by
  have hdigits : (payloadDigits payload).all isDigit = true :=
    List.all_eq_true.mpr fun _ => isDigit_of_mem_payloadDigits
  have hvalue : ofDigits (payloadDigits payload) = payload := by
    unfold payloadDigits
    split
    · rename_i hzero
      exact hzero.symm
    · exact ofDigits_digits payload
  rw [readPayload?, if_pos hdigits, hvalue]

theorem map_lowerAscii_payloadDigits (payload : Nat) :
    (payloadDigits payload).map lowerAscii = payloadDigits payload :=
  (List.map_congr_left fun _ hc => lowerAscii_of_isDigit (isDigit_of_mem_payloadDigits hc)).trans
    (List.map_id _)

theorem ofText?_toText_undefined (negative signals : Bool) (payload : Nat) :
    ofText? (undefined negative signals payload).toText =
      some (undefined negative signals payload) := by
  have hnames : ∀ c ∈ (signText negative).toList ++ (undefinedName signals).toList, IsPlain c := by
    have hall : ((signText negative).toList ++ (undefinedName signals).toList).all
        (fun c => decide (IsPlain c)) = true := by
      cases negative <;> cases signals <;> rfl
    exact fun c hc => of_decide_eq_true (List.all_eq_true.mp hall c hc)
  have hplain : ∀ c ∈ (undefined negative signals payload).toText.toList, IsPlain c := by
    intro c hc
    rw [toText, String.toList_append, String.toList_append, toList_payloadText] at hc
    rcases List.mem_append.mp hc with hc | hc
    · exact hnames c hc
    · exact isPlain_of_isDigit (isDigit_of_mem_payloadDigits hc)
  have hspecial : readSpecial? negative (((undefinedName signals).toList ++
      payloadDigits payload).map lowerAscii) = some (undefined negative signals payload) := by
    rw [List.map_append, map_lowerAscii_payloadDigits]
    cases signals <;> exact readPayload?_payloadDigits negative _ payload
  have hsign : splitSign (undefined negative signals payload).toText.toList =
      (negative, (undefinedName signals).toList ++ payloadDigits payload) := by
    rw [toText, String.toList_append, String.toList_append, toList_payloadText]
    cases negative <;> cases signals <;> rfl
  rw [ofText?, plainDecimal_eq_self hplain, ofChars?, hsign]
  simp only [hspecial]

/-- A decimal reads back from its text, digit for digit. -/
theorem ofText?_toText {d : Decimal} (h : d.IsInRange) : ofText? d.toText = some d := by
  cases d with
  | finite d => exact ofText?_toText_finite h
  | infinite negative => cases negative <;> decide +kernel
  | undefined negative signals payload => exact ofText?_toText_undefined negative signals payload

theorem isInRange_of_finiteInRange? {s : Scaled} {d : Decimal} (h : finiteInRange? s = some d) :
    d.IsInRange := by
  unfold finiteInRange? at h
  split at h
  · rename_i hrange
    cases h
    exact hrange
  · cases h

theorem isInRange_of_readSpecial? {negative : Bool} {cs : List Char} {d : Decimal}
    (h : readSpecial? negative cs = some d) : d.IsInRange := by
  have hpayload : ∀ {signals : Bool} {ds : List Char},
      readPayload? negative signals ds = some d → d.IsInRange := by
    intro signals ds hread
    unfold readPayload? at hread
    split at hread
    · cases hread
      trivial
    · cases hread
  unfold readSpecial? at h
  split at h
  · split at h
    · cases h
      trivial
    · cases h
  · exact hpayload h
  · exact hpayload h
  · cases h

/-- A decimal that was read is in range. -/
theorem isInRange_of_ofText? {text : String} {d : Decimal} (h : ofText? text = some d) :
    d.IsInRange := by
  unfold ofText? ofChars? at h
  dsimp only at h
  split at h
  · rename_i hspecial
    cases h
    exact isInRange_of_readSpecial? hspecial
  · obtain ⟨s, -, hs⟩ := Option.bind_eq_some_iff.mp h
    exact isInRange_of_finiteInRange? hs

end Decimal
end BlockScript
