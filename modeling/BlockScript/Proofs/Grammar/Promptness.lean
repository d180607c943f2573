import BlockScript.Proofs.Grammar.Answers
import BlockScript.Proofs.Grammar.Reading

/-!
# Rules that decide token by token

A rule is prompt when it looks at no token behind the next one, and rejects a row of tokens
only where what it has passed could still be read.  The result on a row then depends on what
was passed and on the token behind it, and behind whatever was passed before a rejection
some words make up a row that the rule reads.

What may follow a reading without being taken for a part of it is its follow condition; the
start condition of a rule says what may stand in front of it.  Both are handed from rule to
rule along a chain, so that prompt rules chain to prompt rules.

The rules come with a bound on their nesting.  A family of rules settles on a result when
it gives the result under every large bound.
-/

namespace BlockScript

namespace Rule

variable {α β : Type}

/-- The token that a text is scanned to when it is one token. -/
def word (kind : TokenKind) (text : String) : Token := ⟨kind, text, 0, text.length, 1, 1⟩

/-- Words with which rows of tokens are completed. -/
def completions : List Token :=
  [word .identifier "NIL", word .identifier "DO", word .identifier "END",
    word .identifier "CASE", word .identifier "DEFAULT", word .operator ";", word .operator ":",
    word .operator "=", word .operator "[", word .operator "]", word .operator "(",
    word .operator ")"]

/-- Under every large bound the rules of a family have a given result. -/
def Settles (s : Nat → Rule α) (c : Cursor) (o : Except ParseFailure (α × Cursor)) : Prop :=
  ∃ b, ∀ b' ≥ b, s b' c = o

namespace Settles

variable {s s' : Nat → Rule α} {c c' : Cursor} {o o' : Except ParseFailure (α × Cursor)}

theorem of_forall (h : ∀ b, s b c = o) : Settles s c o := ⟨0, fun b _ => h b⟩

theorem congr (h : Settles s' c o) (hs : ∀ b, s b c = s' b c) : Settles s c o := by
  obtain ⟨b, hb⟩ := h
  exact ⟨b, fun b' hb' => (hs b').trans (hb b' hb')⟩

theorem succ (h : Settles (fun b => s (b + 1)) c o) : Settles s c o := by
  obtain ⟨b, hb⟩ := h
  refine ⟨b + 1, fun b' hb' => ?_⟩
  obtain ⟨d, rfl⟩ := Nat.exists_eq_add_of_le' (Nat.le_trans (Nat.le_add_left 1 b) hb')
  exact hb d (by omega)

theorem shift (h : Settles s c o) : Settles (fun b => s (b + 1)) c o := by
  obtain ⟨b, hb⟩ := h
  exact ⟨b, fun b' hb' => hb (b' + 1) (Nat.le_succ_of_le hb')⟩

theorem unique (h : Settles s c o) (h' : Settles s c o') : o = o' := by
  obtain ⟨b, hb⟩ := h
  obtain ⟨b', hb'⟩ := h'
  exact (hb (max b b') (Nat.le_max_left _ _)).symm.trans (hb' (max b b') (Nat.le_max_right _ _))

theorem bind {next : Nat → α → Rule β} {a : α} {o : Except ParseFailure (β × Cursor)}
    (h : Settles s c (.ok (a, c'))) (hnext : Settles (fun b => next b a) c' o) :
    Settles (fun b => s b >>= next b) c o := by
  obtain ⟨b₁, h₁⟩ := h
  obtain ⟨b₂, h₂⟩ := hnext
  refine ⟨max b₁ b₂, fun b hb => ?_⟩
  have hs := h₁ b (Nat.le_trans (Nat.le_max_left _ _) hb)
  have hn := h₂ b (Nat.le_trans (Nat.le_max_right _ _) hb)
  simp only [Bind.bind, hs]
  exact hn

theorem bind_error {next : Nat → α → Rule β} {f : ParseFailure}
    (h : Settles s c (.error f)) : Settles (fun b => s b >>= next b) c (.error f) := by
  obtain ⟨b, hb⟩ := h
  exact ⟨b, fun b' hb' => bind_eq_error.mpr (Or.inl (hb b' hb'))⟩

end Settles

/-- A rule `r` of a family decides the row at a cursor token by token: `start` is its start
condition and `follow a` what may follow a reading with the result `a`. -/
structure Prompt (start : List Token → Prop) (follow : α → List Token → Prop)
    (s : Nat → Rule α) (r : Rule α) (c : Cursor) : Prop where
  /-- What was read is read from every row that goes on with the same token, or with what
  may follow. -/
  ok : ∀ {a : α} {c' : Cursor}, r c = .ok (a, c') → ∃ passed,
    c.rest = passed ++ c'.rest ∧ c'.position = c.position + passed.length ∧
    (∀ z, z.head? = c'.rest.head? ∨ follow a z →
      Settles s ⟨c.position, passed ++ z⟩ (.ok (a, ⟨c'.position, z⟩))) ∧
    (passed = [] → ∀ z, follow a z → start z)
  /-- What was rejected is rejected in every row that goes on with the same token, and some
  words complete what was passed. -/
  rejected : ∀ {e : ParseError}, r c = .error (.rejected e) → ∃ passed rest,
    c.rest = passed ++ rest ∧ e.index = c.position + passed.length ∧
    (∀ z, z.head? = rest.head? →
      Settles s ⟨c.position, passed ++ z⟩ (.error (.rejected e))) ∧
    (passed = [] ∨ ∃ more a, (∀ t ∈ more, t ∈ completions) ∧ ∀ z, follow a z →
      Settles s ⟨c.position, passed ++ (more ++ z)⟩
        (.ok (a, ⟨c.position + passed.length + more.length, z⟩)))
  /-- Any other failure is that of the family. -/
  failed : ∀ {f : ParseFailure}, r c = .error f → f ≠ .exhausted → (∀ e, f ≠ .rejected e) →
    Settles s c (.error f)

/-- Some words make up a row that the family reads. -/
def Completable (start : List Token → Prop) (follow : α → List Token → Prop)
    (s : Nat → Rule α) : Prop :=
  ∃ more a, (∀ t ∈ more, t ∈ completions) ∧ (∀ z, follow a z → start (more ++ z)) ∧
    ∀ p z, follow a z → Settles s ⟨p, more ++ z⟩ (.ok (a, ⟨p + more.length, z⟩))

/-- A rule of a family decides every row token by token, and some words make up a row that
the family reads. -/
structure Steady (start : List Token → Prop) (follow : α → List Token → Prop)
    (s : Nat → Rule α) (r : Rule α) : Prop where
  prompt : ∀ c, Prompt start follow s r c
  completable : Completable start follow s

/-- The start condition of rules that pass a token whenever they succeed. -/
def Passes (_ : List Token) : Prop := False

section Prompt

variable {start start' : List Token → Prop} {follow follow' : α → List Token → Prop}
  {s s' : Nat → Rule α} {r r' : Rule α} {c : Cursor}

/-- A result other than that of a too small bound is the result of the family. -/
theorem Prompt.settles {o : Except ParseFailure (α × Cursor)} (h : Prompt start follow s r c)
    (hr : r c = o) (ho : o ≠ .error .exhausted) : Settles s c o := by
  obtain ⟨p, ts⟩ := c
  cases o with
  | ok result =>
      obtain ⟨passed, hrest, _, hsettles, _⟩ := h.ok hr
      simp only at hrest
      rw [hrest]
      exact hsettles _ (Or.inl rfl)
  | error f =>
      by_cases hf : ∃ e, f = .rejected e
      · obtain ⟨e, rfl⟩ := hf
        obtain ⟨passed, rest, hrest, _, hsettles, _⟩ := h.rejected hr
        simp only at hrest
        rw [hrest]
        exact hsettles _ rfl
      · exact h.failed hr (fun h => ho (h ▸ rfl)) fun e he => hf ⟨e, he⟩

theorem Prompt.mono (h : Prompt start' follow' s r c) (hstart : ∀ z, start' z → start z)
    (hfollow : ∀ a z, follow a z → follow' a z) : Prompt start follow s r c where
  ok hr := by
    obtain ⟨passed, hrest, hposition, hsettles, hnil⟩ := h.ok hr
    exact ⟨passed, hrest, hposition, fun z hz => hsettles z (hz.imp_right (hfollow _ z)),
      fun hp z hz => hstart z (hnil hp z (hfollow _ z hz))⟩
  rejected hr := by
    obtain ⟨passed, rest, hrest, hindex, hsettles, hmore⟩ := h.rejected hr
    refine ⟨passed, rest, hrest, hindex, hsettles, hmore.imp_right ?_⟩
    rintro ⟨more, a, hwords, hmore⟩
    exact ⟨more, a, hwords, fun z hz => hmore z (hfollow a z hz)⟩
  failed := h.failed

theorem Prompt.of_passes (h : Prompt Passes follow s r c) : Prompt start follow s r c :=
  h.mono (fun _ => False.elim) fun _ _ => id

/-- A rule is prompt for every family with the results of its own one. -/
theorem Prompt.transfer (h : Prompt start follow s' r c)
    (hs : ∀ {c : Cursor} {o}, Settles s' c o → Settles s c o) : Prompt start follow s r c where
  ok hr := by
    obtain ⟨passed, hrest, hposition, hsettles, hnil⟩ := h.ok hr
    exact ⟨passed, hrest, hposition, fun z hz => hs (hsettles z hz), hnil⟩
  rejected hr := by
    obtain ⟨passed, rest, hrest, hindex, hsettles, hmore⟩ := h.rejected hr
    refine ⟨passed, rest, hrest, hindex, fun z hz => hs (hsettles z hz), hmore.imp_right ?_⟩
    rintro ⟨more, a, hwords, hmore⟩
    exact ⟨more, a, hwords, fun z hz => hs (hmore z hz)⟩
  failed hr hf hf' := hs (h.failed hr hf hf')

theorem Prompt.succ (h : Prompt start follow (fun b => s (b + 1)) r c) :
    Prompt start follow s r c :=
  h.transfer .succ

theorem prompt_pure {a : α} (ha : ∀ z, follow a z → start z) :
    Prompt start follow (fun _ => pure a) (pure a) c where
  ok hr := by
    cases hr
    exact ⟨[], rfl, rfl, fun z _ => .of_forall fun _ => rfl, fun _ => ha⟩
  rejected hr := by cases hr
  failed hr := by cases hr

theorem prompt_reject (cause : ParseCause) :
    Prompt start follow (fun _ => reject cause) (reject cause) c where
  ok hr := by cases hr
  rejected hr := by
    cases hr
    refine ⟨[], c.rest, rfl, rfl, fun z hz => .of_forall fun _ => ?_, Or.inl rfl⟩
    simp only [reject, Cursor.error, List.nil_append, hz]
  failed hr hf hf' := by
    cases hr
    exact absurd rfl (hf' _)

theorem prompt_exhausted : Prompt start follow s (Rule.fail .exhausted) c where
  ok hr := by cases hr
  rejected hr := by cases hr
  failed hr hf := by
    cases hr
    exact absurd rfl hf

/-- A rule with a failure that is no rejection is prompt where its family fails so too. -/
theorem prompt_of_failure {f : ParseFailure} (hr : r c = .error f) (hf : ∀ e, f ≠ .rejected e)
    (hs : ∀ b, s b c = .error f) : Prompt start follow s r c where
  ok hr' := by
    rw [hr] at hr'
    cases hr'
  rejected hr' := by
    rw [hr] at hr'
    cases hr'
    exact absurd rfl (hf _)
  failed hr' _ _ := by
    rw [hr] at hr'
    cases hr'
    exact .of_forall hs

/-- Where a rule goes on by the next token as another one that passes it, it is prompt when
the other one is. -/
theorem Prompt.dispatch (h : Prompt Passes follow s' r' c) (hr : r c = r' c)
    (hs : ∀ z, z.head? = c.rest.head? → ∀ b, s b ⟨c.position, z⟩ = s' b ⟨c.position, z⟩) :
    Prompt start follow s r c where
  ok hr' := by
    obtain ⟨passed, hrest, hposition, hsettles, hnil⟩ := h.ok (hr.symm.trans hr')
    refine ⟨passed, hrest, hposition, fun z hz => (hsettles z hz).congr (hs _ ?_), fun hp z hz =>
      (hnil hp z hz).elim⟩
    rw [hrest]
    cases passed with
    | nil => exact hz.resolve_right fun hz => hnil rfl z hz
    | cons t passed => rfl
  rejected hr' := by
    obtain ⟨passed, rest, hrest, hindex, hsettles, hmore⟩ := h.rejected (hr.symm.trans hr')
    refine ⟨passed, rest, hrest, hindex, fun z hz => (hsettles z hz).congr (hs _ ?_), ?_⟩
    · rw [hrest]
      cases passed with
      | nil => exact hz
      | cons t passed => rfl
    · rcases hmore with hp | ⟨more, a, hwords, hmore⟩
      · exact Or.inl hp
      cases passed with
      | nil => exact Or.inl rfl
      | cons t passed =>
          refine Or.inr ⟨more, a, hwords, fun z hz => (hmore z hz).congr (hs _ ?_)⟩
          rw [hrest]
          rfl
  failed hr' hf hf' :=
    (h.failed (hr.symm.trans hr') hf hf').congr (hs _ rfl)

/-- A rule of a family that goes on by the next token as another one which passes it. -/
theorem Prompt.dispatch_cons {k p : Nat} {u : Nat → Rule α} {t : Token} {ts : List Token}
    (h : Prompt Passes follow u (u k) ⟨p, t :: ts⟩)
    (hs : ∀ b z, s b ⟨p, t :: z⟩ = u b ⟨p, t :: z⟩) :
    Prompt start follow s (s k) ⟨p, t :: ts⟩ := by
  refine h.dispatch (hs k ts) fun z hz b => ?_
  obtain ⟨z', rfl⟩ := List.head?_eq_some_iff.mp hz
  exact hs b z'

theorem Prompt.dispatch_nil {k p : Nat} {u : Nat → Rule α}
    (h : Prompt Passes follow u (u k) ⟨p, []⟩)
    (hs : ∀ b, s b ⟨p, []⟩ = u b ⟨p, []⟩) : Prompt start follow s (s k) ⟨p, []⟩ := by
  refine h.dispatch (hs k) fun z hz b => ?_
  cases List.head?_eq_none_iff.mp hz
  exact hs b

/-- A rule that passes no token where a condition on the next token holds is prompt there
when the condition holds of all that may follow. -/
theorem prompt_stop {P : List Token → Prop} {a : α} {k : Nat}
    (hP : ∀ {z z' : List Token}, z'.head? = z.head? → P z → P z') (hc : P c.rest)
    (hs : ∀ b p z, P z → s b ⟨p, z⟩ = .ok (a, ⟨p, z⟩)) (hfollow : ∀ z, follow a z → P z)
    (hstart : ∀ z, follow a z → start z) : Prompt start follow s (s k) c where
  ok hr := by
    rw [hs k c.position c.rest hc] at hr
    cases hr
    refine ⟨[], rfl, rfl, fun z hz => .of_forall fun b => hs b _ _ ?_, fun _ => hstart⟩
    exact hz.elim (fun hz => hP hz hc) (hfollow z)
  rejected hr := by
    rw [hs k c.position c.rest hc] at hr
    cases hr
  failed hr := by
    rw [hs k c.position c.rest hc] at hr
    cases hr

theorem sees_congr {p : TokenPattern} {z : List Token} (hz : z.head? = c.rest.head?) (n : Nat) :
    (⟨n, z⟩ : Cursor).sees p = c.sees p := by
  obtain ⟨m, ts⟩ := c
  cases z <;> cases ts <;> simp_all [Cursor.sees]

theorem seesText_congr {texts : List String} {z : List Token}
    (hz : z.head? = c.rest.head?) (n : Nat) :
    (⟨n, z⟩ : Cursor).seesText texts = c.seesText texts := by
  simp only [Cursor.seesText, sees_congr hz n]

theorem isEmpty_congr {z ts : List Token} (hz : z.head? = ts.head?) :
    z.isEmpty = ts.isEmpty := by
  cases z <;> cases ts <;> simp_all

/-- A chain that looks at the cursor is prompt when it looks at the next token only and goes
on to pass it. -/
theorem prompt_cursor {next : Nat → Cursor → Rule α} {k : Nat}
    (h : Prompt Passes follow (fun b => next b c) (next k c) c)
    (hhead : ∀ z, z.head? = c.rest.head? → ∀ b, next b ⟨c.position, z⟩ = next b c) :
    Prompt start follow (fun b => cursor >>= next b) (cursor >>= next k) c :=
  h.dispatch rfl fun z hz b => congrFun (hhead z hz b) ⟨c.position, z⟩

theorem prompt_sees {p : TokenPattern} {next : Nat → Bool → Rule α} {bound : Nat}
    (h : Prompt Passes follow (fun b => next b (c.sees p)) (next bound (c.sees p)) c) :
    Prompt start follow (fun b => sees p >>= next b) (sees p >>= next bound) c :=
  h.dispatch rfl fun z hz b => by
    change next b (Cursor.sees ⟨c.position, z⟩ p) _ = _
    rw [sees_congr hz]

end Prompt

section Chains

/-- Chains group either way. -/
theorem bind_assoc {γ : Type} (r : Rule α) (next : α → Rule β) (last : β → Rule γ) :
    (r >>= next) >>= last = r >>= fun a => next a >>= last := by
  funext c
  simp only [Bind.bind]
  cases r c <;> rfl

variable {start : List Token → Prop} {between : α → List Token → Prop}
  {follow : β → List Token → Prop} {s : Nat → Rule α} {r : Rule α}
  {next : Nat → α → Rule β} {next' : α → Rule β} {c : Cursor}

/-- The next token stays when rows with the same next token are put behind others. -/
theorem head?_append_of_head? {passed z rest : List Token} (hz : z.head? = rest.head?) :
    (passed ++ z).head? = (passed ++ rest).head? := by
  cases passed with
  | nil => exact hz
  | cons t passed => rfl

/-- A prompt rule chains with steady ones to a prompt rule. -/
theorem Prompt.bind (h : Prompt start between s r c)
    (hnext : ∀ a, Steady (between a) follow (fun b => next b a) (next' a)) :
    Prompt start follow (fun b => s b >>= next b) (r >>= next') c where
  ok hr := by
    rename_i a c₂
    obtain ⟨a₁, c₁, h₁, h₂⟩ := bind_eq_ok.mp hr
    obtain ⟨passed₁, hrest₁, hposition₁, hsettles₁, hnil₁⟩ := h.ok h₁
    obtain ⟨passed₂, hrest₂, hposition₂, hsettles₂, hnil₂⟩ := ((hnext a₁).prompt c₁).ok h₂
    refine ⟨passed₁ ++ passed₂, ?_, ?_, fun z hz => ?_, fun hp z hz => ?_⟩
    · rw [hrest₁, hrest₂, List.append_assoc]
    · rw [hposition₂, hposition₁, List.length_append]
      omega
    · rw [List.append_assoc]
      refine (hsettles₁ (passed₂ ++ z) ?_).bind (hsettles₂ z hz)
      rw [hrest₂]
      rcases hz with hz | hz
      · exact Or.inl (head?_append_of_head? hz)
      -- Where the second rule passes nothing, what follows it follows the first one too.
      cases passed₂ with
      | nil => exact Or.inr (hnil₂ rfl z hz)
      | cons t passed₂ => exact Or.inl rfl
    · obtain ⟨rfl, rfl⟩ := List.append_eq_nil_iff.mp hp
      exact hnil₁ rfl z (hnil₂ rfl z hz)
  rejected hr := by
    rename_i e
    rcases bind_eq_error.mp hr with h₁ | ⟨a₁, c₁, h₁, h₂⟩
    · obtain ⟨passed, rest, hrest, hindex, hsettles, hmore⟩ := h.rejected h₁
      refine ⟨passed, rest, hrest, hindex, fun z hz => (hsettles z hz).bind_error,
        hmore.imp_right ?_⟩
      rintro ⟨more₁, a₁, hwords₁, hmore₁⟩
      obtain ⟨more₂, a₂, hwords₂, hstart₂, hmore₂⟩ := (hnext a₁).completable
      refine ⟨more₁ ++ more₂, a₂, List.forall_mem_append.mpr ⟨hwords₁, hwords₂⟩, fun z hz => ?_⟩
      rw [List.append_assoc, List.length_append, ← Nat.add_assoc]
      exact (hmore₁ _ (hstart₂ z hz)).bind (hmore₂ _ z hz)
    · obtain ⟨passed₁, hrest₁, hposition₁, hsettles₁, hnil₁⟩ := h.ok h₁
      obtain ⟨passed₂, rest, hrest₂, hindex, hsettles₂, hmore₂⟩ :=
        ((hnext a₁).prompt c₁).rejected h₂
      refine ⟨passed₁ ++ passed₂, rest, ?_, ?_, fun z hz => ?_, ?_⟩
      · rw [hrest₁, hrest₂, List.append_assoc]
      · rw [hindex, hposition₁, List.length_append]
        omega
      · rw [List.append_assoc]
        refine (hsettles₁ (passed₂ ++ z) (Or.inl ?_)).bind (hsettles₂ z hz)
        rw [hrest₂]
        exact head?_append_of_head? hz
      · -- The token that is rejected decided that the first rule ends in front of it.  Where the
        -- second one passed none, words that it starts with have to end the first one as well.
        cases passed₂ with
        | nil =>
            obtain ⟨more, a, hwords, hstart, hmore⟩ := (hnext a₁).completable
            refine Or.inr ⟨more, a, hwords, fun z hz => ?_⟩
            have hread := (hsettles₁ _ (Or.inr (hstart z hz))).bind (hmore c₁.position z hz)
            rw [hposition₁] at hread
            rwa [List.append_nil]
        | cons t passed₂ =>
            obtain ⟨more, a, hwords, hmore⟩ := hmore₂.resolve_left (List.cons_ne_nil _ _)
            refine Or.inr ⟨more, a, hwords, fun z hz => ?_⟩
            have hhead : (t :: passed₂ ++ (more ++ z)).head? = c₁.rest.head? := by rw [hrest₂]; rfl
            have hread := (hsettles₁ _ (Or.inl hhead)).bind (hmore z hz)
            rw [hposition₁] at hread
            rwa [List.append_assoc, List.length_append, ← Nat.add_assoc]
  failed hr hf hf' := by
    rcases bind_eq_error.mp hr with h₁ | ⟨a₁, c₁, h₁, h₂⟩
    · exact (h.failed h₁ hf hf').bind_error
    · exact (h.settles h₁ (by simp)).bind (((hnext a₁).prompt c₁).failed h₂ hf hf')

theorem Completable.bind (h : Completable start between s)
    (hnext : ∀ a, Completable (between a) follow fun b => next b a) :
    Completable start follow fun b => s b >>= next b := by
  obtain ⟨more₁, a₁, hwords₁, hstart₁, hmore₁⟩ := h
  obtain ⟨more₂, a₂, hwords₂, hstart₂, hmore₂⟩ := hnext a₁
  refine ⟨more₁ ++ more₂, a₂, List.forall_mem_append.mpr ⟨hwords₁, hwords₂⟩, fun z hz => ?_,
    fun p z hz => ?_⟩
  · rw [List.append_assoc]
    exact hstart₁ _ (hstart₂ z hz)
  · rw [List.append_assoc, List.length_append, ← Nat.add_assoc]
    exact (hmore₁ p _ (hstart₂ z hz)).bind (hmore₂ _ z hz)

theorem Steady.bind (h : Steady start between s r)
    (hnext : ∀ a, Steady (between a) follow (fun b => next b a) (next' a)) :
    Steady start follow (fun b => s b >>= next b) (r >>= next') :=
  ⟨fun c => (h.prompt c).bind hnext, h.completable.bind fun a => (hnext a).completable⟩

/-- A chain that passes a token is prompt when the rest is steady. -/
theorem prompt_skip {P : List Token → Prop} {next : Nat → Unit → Rule β}
    {next' : Unit → Rule β} {p : Nat} {t : Token} {ts : List Token}
    (h : Steady P follow (fun b => next b ()) (next' ())) :
    Prompt Passes follow (fun b => skip >>= next b) (skip >>= next') ⟨p, t :: ts⟩ where
  ok hr := by
    obtain ⟨passed, hrest, hposition, hsettles, _⟩ := (h.prompt ⟨p + 1, ts⟩).ok hr
    refine ⟨t :: passed, congrArg (t :: ·) hrest, ?_, hsettles, fun hp => nomatch hp⟩
    rw [hposition, List.length_cons]
    simp only
    omega
  rejected hr := by
    obtain ⟨passed, rest, hrest, hindex, hsettles, hmore⟩ := (h.prompt ⟨p + 1, ts⟩).rejected hr
    refine ⟨t :: passed, rest, congrArg (t :: ·) hrest, ?_, hsettles, Or.inr ?_⟩
    · rw [hindex, List.length_cons]
      simp only
      omega
    have hlength : p + (t :: passed).length = p + 1 + passed.length := by
      rw [List.length_cons]
      omega
    rcases hmore with rfl | ⟨more, a, hwords, hmore⟩
    · obtain ⟨more, a, hwords, -, hmore⟩ := h.completable
      exact ⟨more, a, hwords, fun z hz => hlength ▸ hmore (p + 1) z hz⟩
    · exact ⟨more, a, hwords, fun z hz => hlength ▸ hmore z hz⟩
  failed hr := (h.prompt ⟨p + 1, ts⟩).failed hr

end Chains

section Completable

variable {start start' : List Token → Prop} {follow follow' : α → List Token → Prop}
  {s s' : Nat → Rule α}

theorem Completable.mono (h : Completable start' follow' s) (hstart : ∀ z, start' z → start z)
    (hfollow : ∀ a z, follow a z → follow' a z) : Completable start follow s := by
  obtain ⟨more, a, hwords, hmore, hsettles⟩ := h
  exact ⟨more, a, hwords, fun z hz => hstart _ (hmore z (hfollow a z hz)),
    fun p z hz => hsettles p z (hfollow a z hz)⟩

theorem Completable.transfer (h : Completable start follow s')
    (hs : ∀ {c : Cursor} {o}, Settles s' c o → Settles s c o) : Completable start follow s := by
  obtain ⟨more, a, hwords, hmore, hsettles⟩ := h
  exact ⟨more, a, hwords, hmore, fun p z hz => hs (hsettles p z hz)⟩

theorem Completable.succ (h : Completable start follow fun b => s (b + 1)) :
    Completable start follow s :=
  h.transfer .succ

theorem Steady.shift {r : Rule α} (h : Steady start follow s r) :
    Steady start follow (fun b => s (b + 1)) r :=
  ⟨fun c => (h.prompt c).transfer .shift, h.completable.transfer .shift⟩

/-- Words complete a family that agrees with another one wherever their row may start. -/
theorem Completable.congr (h : Completable start' follow s') (hstart : ∀ z, start' z → start z)
    (hs : ∀ b p z, start' z → s b ⟨p, z⟩ = s' b ⟨p, z⟩) : Completable start follow s := by
  obtain ⟨more, a, hwords, hmore, hsettles⟩ := h
  exact ⟨more, a, hwords, fun z hz => hstart _ (hmore z hz), fun p z hz =>
    (hsettles p z hz).congr fun b => hs b p _ (hmore z hz)⟩

/-- Nothing has to be added where the family reads the empty row in front of what follows. -/
theorem completable_nil {a : α} (ha : ∀ z, follow a z → start z)
    (hs : ∀ p z, follow a z → Settles s ⟨p, z⟩ (.ok (a, ⟨p, z⟩))) :
    Completable start follow s :=
  ⟨[], a, by simp, ha, hs⟩

theorem completable_pure {a : α} (ha : ∀ z, follow a z → start z) :
    Completable start follow fun _ => pure a :=
  completable_nil ha fun _ _ _ => .of_forall fun _ => rfl

theorem steady_pure {a : α} (ha : ∀ z, follow a z → start z) :
    Steady start follow (fun _ => pure a) (pure a) :=
  ⟨fun _ => prompt_pure ha, completable_pure ha⟩

theorem Steady.mono {r : Rule α} (h : Steady start' follow' s r)
    (hstart : ∀ z, start' z → start z) (hfollow : ∀ a z, follow a z → follow' a z) :
    Steady start follow s r :=
  ⟨fun c => (h.prompt c).mono hstart hfollow, h.completable.mono hstart hfollow⟩

end Completable

section Tokens

variable {start : List Token → Prop} {c : Cursor}

/-- Any row may follow. -/
def Anything {α : Type} (_ : α) (_ : List Token) : Prop := True

theorem prompt_expectAs (p : TokenPattern) (what : String) :
    Prompt Passes Anything (fun _ => expectAs p what) (expectAs p what) c where
  ok hr := by
    rename_i t c'
    obtain ⟨hrest, hposition, ht⟩ := Grammar.expectAs_eq_ok.mp hr
    refine ⟨[t], hrest, hposition, fun z _ => .of_forall fun _ => ?_, fun hp => nomatch hp⟩
    exact Grammar.expectAs_eq_ok.mpr ⟨rfl, hposition, ht⟩
  rejected hr := by
    obtain ⟨n, ts⟩ := c
    have herror : ∀ ts : List Token, (∀ t ∈ ts.head?, p.fits t = false) →
        expectAs p what ⟨n, ts⟩ = .error (Cursor.error ⟨n, ts⟩ (.expected what)) := by
      rintro (_ | ⟨t, ts⟩) ht
      · rfl
      · exact if_neg (by simp [ht t rfl])
    have hts : ∀ t ∈ ts.head?, p.fits t = false := by
      intro t ht
      cases ts with
      | nil => cases ht
      | cons t' ts =>
          cases ht
          cases hfits : p.fits t with
          | false => rfl
          | true =>
              have hok : expectAs p what ⟨n, t :: ts⟩ = _ := if_pos hfits
              rw [hok] at hr
              cases hr
    rw [herror ts hts] at hr
    cases hr
    refine ⟨[], ts, rfl, rfl, fun z hz => .of_forall fun _ => ?_, Or.inl rfl⟩
    rw [List.nil_append, herror z (hz ▸ hts)]
    simp only [Cursor.error, hz]
  failed hr hf hf' := by
    obtain ⟨n, _ | ⟨t, ts⟩⟩ := c
    · cases hr
      exact absurd rfl (hf' _)
    · unfold expectAs at hr
      simp only at hr
      split at hr
      · cases hr
      · cases hr
        exact absurd rfl (hf' _)

theorem steady_expectAs {p : TokenPattern} (what : String) {t : Token} (ht : t ∈ completions)
    (hfits : p.fits t = true) (hstart : ∀ z, start (t :: z)) :
    Steady start Anything (fun _ => expectAs p what) (expectAs p what) where
  prompt _ := (prompt_expectAs p what).of_passes
  completable :=
    ⟨[t], t, by simpa using ht, fun z _ => hstart z, fun n z _ => .of_forall fun _ =>
      Grammar.expectAs_eq_ok.mpr ⟨rfl, rfl, hfits⟩⟩

theorem prompt_expectText (s : String) :
    Prompt Passes Anything (fun _ => expectText s) (expectText s) c :=
  (prompt_expectAs _ _).bind fun _ => steady_pure fun _ _ => trivial

theorem steady_expectText {t : Token} (ht : t ∈ completions) (hstart : ∀ z, start (t :: z)) :
    Steady start Anything (fun _ => expectText t.text) (expectText t.text) :=
  (steady_expectAs _ ht (by simp [TokenPattern.fits]) hstart).bind fun _ =>
    steady_pure fun _ _ => trivial

theorem prompt_identifier (what : String) :
    Prompt Passes Anything (fun _ => identifier what) (identifier what) c :=
  (prompt_expectAs _ _).bind fun _ => steady_pure fun _ _ => trivial

theorem steady_identifier (what : String) {t : Token} (ht : t ∈ completions)
    (hkind : t.kind = .identifier) (hstart : ∀ z, start (t :: z)) :
    Steady start Anything (fun _ => identifier what) (identifier what) :=
  (steady_expectAs _ ht (by simp [TokenPattern.fits, hkind]) hstart).bind fun _ =>
    steady_pure fun _ _ => trivial

/-- What may follow a text that is left out: not the text itself. -/
def Without (start : List Token → Prop) (s : String) (z : List Token) : Prop :=
  start z ∧ Grammar.Avoids [s] z

/-- What may follow a text that is accepted or left out. -/
def Accepted (start : List Token → Prop) (s : String) : Bool → List Token → Prop
  | true => fun _ => True
  | false => Without start s

theorem acceptText_of_avoids {s : String} {p : Nat} {z : List Token}
    (hz : Grammar.Avoids [s] z) : acceptText s ⟨p, z⟩ = .ok (false, ⟨p, z⟩) := by
  cases z with
  | nil => rfl
  | cons t z =>
      have ht : t.text ≠ s := by simpa [Grammar.Avoids] using hz
      rw [acceptText_cons, if_neg ht]

theorem prompt_acceptText (s : String) :
    Prompt start (Accepted start s) (fun _ => acceptText s) (acceptText s) c where
  ok hr := by
    obtain ⟨p, _ | ⟨t, ts⟩⟩ := c
    · cases hr
      refine ⟨[], rfl, rfl, fun z hz => .of_forall fun _ => acceptText_of_avoids ?_,
        fun _ z hz => hz.1⟩
      rcases hz with hz | hz
      · cases z with
        | nil => exact fun _ ht => nomatch ht
        | cons t z => cases hz
      · exact hz.2
    rw [acceptText_cons] at hr
    by_cases ht : t.text = s
    · rw [if_pos ht] at hr
      cases hr
      refine ⟨[t], rfl, rfl, fun z _ => .of_forall fun _ => ?_, fun hp => nomatch hp⟩
      exact (acceptText_cons s p t z).trans (by rw [if_pos ht])
    · rw [if_neg ht] at hr
      cases hr
      refine ⟨[], rfl, rfl, fun z hz => .of_forall fun _ => acceptText_of_avoids ?_,
        fun _ z hz => hz.1⟩
      rcases hz with hz | hz
      · intro t' ht'
        rw [List.nil_append, hz] at ht'
        cases ht'
        simpa using ht
      · exact hz.2
  rejected hr := by
    obtain ⟨p, _ | ⟨t, ts⟩⟩ := c
    · cases hr
    · rw [acceptText_cons] at hr
      cases hr
  failed hr := by
    obtain ⟨p, _ | ⟨t, ts⟩⟩ := c
    · cases hr
    · rw [acceptText_cons] at hr
      cases hr

section Chains

variable {β : Type} {follow : β → List Token → Prop} {s : String} {next : Nat → Bool → Rule β}
  {next' : Bool → Rule β}

theorem completable_accept
    (h : Completable (Without start s) follow fun b => next b false) :
    Completable start follow fun b => acceptText s >>= next b := by
  obtain ⟨more, a, hwords, hstart, hsettles⟩ := h
  refine ⟨more, a, hwords, fun z hz => (hstart z hz).1, fun p z hz => ?_⟩
  exact (Settles.of_forall fun _ => acceptText_of_avoids (hstart z hz).2).bind (hsettles p z hz)

/-- A chain that accepts a text is steady when it is behind the text and without it. -/
theorem steady_accept
    (htrue : Steady (fun _ => True) follow (fun b => next b true) (next' true))
    (hfalse : Steady (Without start s) follow (fun b => next b false) (next' false)) :
    Steady start follow (fun b => acceptText s >>= next b) (acceptText s >>= next') where
  prompt _ := (prompt_acceptText s).bind fun | true => htrue | false => hfalse
  completable := completable_accept hfalse.completable

end Chains

end Tokens

section Limits

variable {start : List Token → Prop} {follow : α → List Token → Prop} {s : Nat → Rule α}
  {bound : List Token → Nat}

/-- The rule that takes from each row a bound which is large enough for it gives the results
of its family. -/
theorem eq_of_settles {c : Cursor} {o : Except ParseFailure (α × Cursor)}
    (h : ∀ b, Prompt start follow s (s b) c) (hs : s (bound c.rest) c ≠ .error .exhausted)
    (ho : Settles s c o) : s (bound c.rest) c = o :=
  ((h (bound c.rest)).settles rfl hs).unique ho

theorem settles_limit (h : ∀ b c, Prompt start follow s (s b) c)
    (hs : ∀ c, s (bound c.rest) c ≠ .error .exhausted) {c : Cursor}
    {o : Except ParseFailure (α × Cursor)} (ho : Settles s c o) :
    Settles (fun _ c => s (bound c.rest) c) c o :=
  .of_forall fun _ => eq_of_settles (fun b => h b c) (hs c) ho

theorem Prompt.limit (h : ∀ b c, Prompt start follow s (s b) c)
    (hs : ∀ c, s (bound c.rest) c ≠ .error .exhausted) (c : Cursor) :
    Prompt start follow (fun _ c => s (bound c.rest) c) (fun c => s (bound c.rest) c) c := by
  have hc := (h (bound c.rest) c).transfer (settles_limit h hs)
  exact ⟨hc.ok, hc.rejected, hc.failed⟩

theorem Steady.limit (h : ∀ b, Steady start follow s (s b))
    (hs : ∀ c, s (bound c.rest) c ≠ .error .exhausted) :
    Steady start follow (fun _ c => s (bound c.rest) c) (fun c => s (bound c.rest) c) where
  prompt := Prompt.limit (fun b c => (h b).prompt c) hs
  completable := (h 0).completable.transfer (settles_limit (fun b c => (h b).prompt c) hs)

end Limits

section Words

variable {β : Type} {start : List Token → Prop} {between : α → List Token → Prop}
  {follow : β → List Token → Prop} {s : Nat → Rule α} {r : Rule α} {t : Token} {c : Cursor}

/-- A chain that ends with a word. -/
theorem steady_closing (ht : t ∈ completions) (hstart : ∀ z, start (t :: z)) (b : β) :
    Steady start follow (fun _ => expectText t.text >>= fun _ => pure b)
      (expectText t.text >>= fun _ => pure b) :=
  (steady_expectText ht hstart).bind fun _ => steady_pure fun _ _ => trivial

theorem Prompt.closed (h : Prompt start between s r c) (ht : t ∈ completions)
    (hbetween : ∀ a z, between a (t :: z)) (f : α → β) :
    Prompt start follow (fun b => s b >>= fun a => expectText t.text >>= fun _ => pure (f a))
      (r >>= fun a => expectText t.text >>= fun _ => pure (f a)) c :=
  h.bind fun a => steady_closing ht (hbetween a) (f a)

theorem Steady.closed (h : Steady start between s r) (ht : t ∈ completions)
    (hbetween : ∀ a z, between a (t :: z)) (f : α → β) :
    Steady start follow (fun b => s b >>= fun a => expectText t.text >>= fun _ => pure (f a))
      (r >>= fun a => expectText t.text >>= fun _ => pure (f a)) :=
  h.bind fun a => steady_closing ht (hbetween a) (f a)

end Words

end Rule
end BlockScript
