import BlockScript.Proofs.Grammar.PromptRules
import Mathlib

/-!
# Where a row of tokens is rejected

A row of tokens is rejected behind its longest viable prefix.  The tokens in front of the
place of the error can be continued to a row that has a tree.  The token at the place, if
there is one, decides: every row that starts with the same tokens up to and with this one is
rejected with the same error.

The rules for declarations are prompt, as those for statements are, and with them the rule
for whole programs.
-/

namespace BlockScript
namespace Grammar

open Rule

section Declarations

/-- A name as a word. -/
theorem steady_name {start : List Token → Prop} (what : String)
    (hstart : ∀ z, start (word .identifier "NIL" :: z)) :
    Steady start Anything (fun _ => Rule.identifier what) (Rule.identifier what) :=
  steady_identifier (t := word .identifier "NIL") what
    (by decide) rfl hstart

theorem steady_listGlobal :
    Steady (fun _ => True) Anything (fun _ => listGlobal) listGlobal := by
  refine (steady_name "identifier" fun _ => trivial).bind fun name => ?_
  refine steady_optionalType.bind fun typeName => ?_
  refine (steady_expectText (t := word .operator "=") (by decide)
    fun _ => ⟨trivial, avoids_cons.mpr (by decide)⟩).bind fun _ => ?_
  refine (steady_expectText (t := word .operator "[") (by decide) fun _ => trivial).bind fun _ => ?_
  exact (steady_listElements fun _ => trivial).bind fun _ => steady_pure fun _ _ => trivial

theorem steady_mutableGlobal :
    Steady (fun _ => True) (AfterValue (Without (fun _ => True) ":")) (fun _ => mutableGlobal)
      mutableGlobal := by
  refine (steady_name "identifier" fun _ => trivial).bind fun name => ?_
  refine steady_optionalType.bind fun typeName => ?_
  exact steady_optionalValue.bind fun value => steady_pure fun _ => id

theorem steady_immutableGlobal :
    Steady (fun _ => True) (AfterLayers operatorLayers) (fun _ => immutableGlobal)
      immutableGlobal := by
  refine (steady_name "identifier" fun _ => trivial).bind fun name => ?_
  refine steady_optionalType.bind fun typeName => ?_
  refine (steady_expectAs (t := word .operator "=") _
    (by decide) rfl
    fun _ => ⟨trivial, avoids_cons.mpr (by decide)⟩).bind fun _ => ?_
  exact (steady_expression fun _ => trivial).bind fun value => steady_pure fun _ => id

/-- The rule for globals is only called at one of their keywords; any first token is
passed. -/
theorem prompt_global (p : Nat) (t : Token) (ts : List Token) :
    Prompt Passes Anything (fun _ => global) global ⟨p, t :: ts⟩ := by
  by_cases hlist : t.text = "LIST"
  · refine Prompt.dispatch_cons (k := 0) ?_ fun _ z => acceptText_bind_of_eq hlist p z
    exact prompt_skip (steady_listGlobal.closed (t := word .operator ";") (by decide)
      (fun _ _ => trivial) id)
  by_cases hval : t.text = "VAL"
  · refine Prompt.dispatch_cons (k := 0) ?_ fun _ z =>
      (acceptText_bind_of_ne hlist p z).trans (acceptText_bind_of_eq hval p z)
    exact prompt_skip (steady_immutableGlobal.closed (t := word .operator ";") (by decide)
      (fun _ _ => avoids_cons.mpr (by decide)) id)
  · refine Prompt.dispatch_cons (k := 0) ?_ fun _ z =>
      (acceptText_bind_of_ne hlist p z).trans (acceptText_bind_of_ne hval p z)
    exact prompt_skip (steady_mutableGlobal.closed (t := word .operator ";") (by decide)
      (fun _ _ => ⟨⟨⟨trivial, avoids_cons.mpr (by decide)⟩, avoids_cons.mpr (by decide)⟩,
        avoids_cons.mpr (by decide)⟩) id)

theorem globals_of_avoids {bound p : Nat} {z : List Token} (hz : ¬ Stands globalKeywords z) :
    globals (bound + 1) ⟨p, z⟩ = .ok ([], ⟨p, z⟩) := by
  have hsees : ¬ (⟨p, z⟩ : Cursor).seesText globalKeywords = true :=
    fun h => hz (seesText_iff.mp h)
  change (if (⟨p, z⟩ : Cursor).seesText globalKeywords = true then _ else pure [] : Rule _)
    ⟨p, z⟩ = _
  rw [if_neg hsees]
  rfl

/-- No further global follows. -/
def AfterGlobals (_ : List Node) (z : List Token) : Prop := ¬ Stands globalKeywords z

theorem completable_globals : Completable (fun _ => True) AfterGlobals globals :=
  completable_nil (fun _ _ => trivial) fun _ _ hz =>
    (Settles.of_forall fun _ => globals_of_avoids hz).succ

theorem steady_globals (bound : Nat) :
    Steady (fun _ => True) AfterGlobals globals (globals bound) := by
  refine ⟨?_, completable_globals⟩
  induction bound with
  | zero => exact fun _ => prompt_exhausted
  | succ bound ih =>
      intro c
      refine Prompt.succ ?_
      by_cases hc : Stands globalKeywords c.rest
      · refine prompt_cursor ?_ fun z hz b => by simp only [seesText_congr hz]
        simp only [seesText_iff.mpr hc, if_true]
        obtain ⟨p, _ | ⟨t, ts⟩⟩ := c
        · obtain ⟨t, ht, _⟩ := hc
          cases ht
        refine (prompt_global p t ts).bind fun first => ?_
        exact Steady.bind ⟨fun c => (ih c).mono (fun _ _ => trivial) fun _ _ => id,
          completable_globals⟩ fun others => steady_pure fun _ => id
      · exact prompt_stop (s := fun b => globals (b + 1)) (fun hz hz' => by rwa [Stands, hz]) hc
          (fun b p z hz => globals_of_avoids hz) (fun _ => id) fun _ _ => trivial

theorem prompt_parameter (c : Cursor) :
    Prompt Passes (fun _ => Without (fun _ => True) ":") (fun _ => parameter) parameter c := by
  refine (prompt_identifier "parameter name").bind fun name => ?_
  exact steady_optionalType.bind fun typeName => steady_pure fun _ => id

/-- The closing parenthesis follows. -/
def AfterParameters (_ : List (String × Option String)) : List Token → Prop := Stands [")"]

theorem without_of_afterParameters {z : List Token} (hz : Stands [")"] z) :
    Without (Without (fun _ => True) ":") "," z :=
  ⟨⟨trivial, hz.avoids (by decide)⟩, hz.avoids (by decide)⟩

theorem completable_parameters : Completable (fun _ => True) AfterParameters parameters := by
  have hparameter : Steady (fun _ => True) (fun _ => Without (fun _ => True) ":")
      (fun _ => parameter) parameter :=
    (steady_name "parameter name" fun _ => trivial).bind fun name =>
      steady_optionalType.bind fun typeName => steady_pure fun _ => id
  refine (hparameter.completable.bind fun first => ?_).succ
  exact completable_accept (completable_pure fun _ => without_of_afterParameters)

theorem prompt_parameters (bound : Nat) (c : Cursor) :
    Prompt Passes AfterParameters parameters (parameters bound) c := by
  induction bound generalizing c with
  | zero => exact prompt_exhausted
  | succ bound ih =>
      refine Prompt.succ ((prompt_parameter c).bind fun first => ?_)
      refine steady_accept ?_ (steady_pure fun _ => without_of_afterParameters)
      exact Steady.bind ⟨fun c => (ih c).of_passes, completable_parameters⟩ fun others =>
        steady_pure fun _ => id

theorem steady_optionalParameters :
    Steady (fun _ => True) AfterParameters (fun _ => optionalParameters) optionalParameters where
  prompt c := by
    by_cases hc : Stands [")"] c.rest
    · exact prompt_stop (k := 0) (fun hz hz' => by rwa [Stands, hz]) hc
        (fun _ p z hz => optionalParameters_of_sees (sees_iff.mpr hz)) (fun _ => id)
        fun _ _ => trivial
    · have hsees : c.sees (.text ")") = false :=
        Bool.eq_false_iff.mpr fun h => hc (sees_iff.mp h)
      have hbound : ∀ c : Cursor, parameters (nestingBound c.rest) c ≠ .error .exhausted :=
        fun c => (answers_parameters (by unfold nestingBound; omega)).ne_exhausted
      have hlimit := Prompt.limit prompt_parameters hbound c
      refine hlimit.dispatch (optionalParameters_of_not_sees hsees) fun z hz _ => ?_
      exact optionalParameters_of_not_sees ((sees_congr hz _).trans hsees)
  completable :=
    completable_nil (fun _ _ => trivial) fun p z hz =>
      .of_forall fun _ => optionalParameters_of_sees (sees_iff.mpr hz)

theorem prompt_function (c : Cursor) :
    Prompt Passes Anything (fun _ => function) function c := by
  refine (prompt_expectText "FUN").bind fun _ => ?_
  refine (steady_name "function name" fun _ => trivial).bind fun name => ?_
  refine (steady_expectText (t := word .operator "(") (by decide) fun _ => trivial).bind fun _ => ?_
  refine steady_optionalParameters.bind fun ps => ?_
  refine (steady_expectText (t := word .operator ")") (by decide)
    fun _ => stands_cons.mpr (by decide)).bind fun _ => ?_
  refine steady_optionalType.bind fun returnType => ?_
  refine (steady_expectText (t := word .identifier "DO") (by decide)
    fun _ => ⟨trivial, avoids_cons.mpr (by decide)⟩).bind fun _ => ?_
  exact (steady_block fun _ _ => trivial).closed (t := word .identifier "END") (by decide)
    (fun _ _ => stands_cons.mpr (by decide)) _

/-- No further function follows. -/
def AfterFunctions (start : List Token → Prop) (_ : List Node) (z : List Token) : Prop :=
  start z ∧ ¬ Stands ["FUN"] z

theorem functions_of_not_stands {bound p : Nat} {z : List Token} (hz : ¬ Stands ["FUN"] z) :
    functions (bound + 1) ⟨p, z⟩ = .ok ([], ⟨p, z⟩) := by
  have hsees : ¬ (⟨p, z⟩ : Cursor).sees (.text "FUN") = true := fun h => hz (sees_iff.mp h)
  change (if (⟨p, z⟩ : Cursor).sees (.text "FUN") = true then _ else pure [] : Rule _) ⟨p, z⟩ = _
  rw [if_neg hsees]
  rfl

theorem completable_functions {start : List Token → Prop} :
    Completable start (AfterFunctions start) functions :=
  completable_nil (fun _ hz => hz.1) fun _ _ hz =>
    (Settles.of_forall fun _ => functions_of_not_stands hz.2).succ

theorem steady_functions (bound : Nat) (start : List Token → Prop) :
    Steady start (AfterFunctions start) functions (functions bound) := by
  refine ⟨?_, completable_functions⟩
  induction bound generalizing start with
  | zero => exact fun _ => prompt_exhausted
  | succ bound ih =>
      intro c
      refine Prompt.succ ?_
      by_cases hc : Stands ["FUN"] c.rest
      · refine prompt_sees ?_
        simp only [sees_iff.mpr hc, if_true]
        refine (prompt_function c).bind fun first => ?_
        have hothers : Steady (fun _ => True) (AfterFunctions fun _ => True) functions
            (functions bound) := ⟨ih _, completable_functions⟩
        exact hothers.bind fun others => steady_pure fun z hz => ⟨trivial, hz.2⟩
      · exact prompt_stop (s := fun b => functions (b + 1)) (fun hz hz' => by rwa [Stands, hz]) hc
          (fun b p z hz => functions_of_not_stands hz) (fun z hz => hz.2) fun z hz => hz.1

end Declarations

section Programs

/-- A whole program, with a given bound on nested rules. -/
def sourceWithin (bound : Nat) : Rule Node := do
  let gs ← globals bound
  let fs ← functions bound
  let last ← Rule.cursor
  if last.rest.isEmpty then return .source gs fs
  else Rule.reject (.expected "global or function declaration")

theorem afterFunctions_nil (gs fs : List Node) :
    AfterFunctions (AfterGlobals gs) fs [] := by
  simp [AfterFunctions, AfterGlobals, Stands]

theorem steady_sourceWithin (bound : Nat) :
    Steady (fun _ => True) (fun _ z => z = []) sourceWithin (sourceWithin bound) := by
  refine (steady_globals bound).bind fun gs => ?_
  refine (steady_functions bound _).bind fun fs => ⟨fun c => ?_, ?_⟩
  · by_cases hc : c.rest = []
    · refine prompt_stop (P := fun z => z = []) (k := 0) (a := .source gs fs) ?_ hc ?_
        (fun _ => id) ?_
      · rintro z z' hz rfl
        exact List.head?_eq_none_iff.mp hz
      · rintro _ p z rfl
        rfl
      · rintro z rfl
        exact afterFunctions_nil gs fs
    · refine prompt_cursor (k := 0) ?_ fun z hz _ => by simp only [isEmpty_congr hz]
      have hempty : c.rest.isEmpty = false := List.isEmpty_eq_false_iff.mpr hc
      simp only [hempty]
      exact prompt_reject _
  · refine completable_nil (a := .source gs fs) ?_ ?_
    · rintro z rfl
      exact afterFunctions_nil gs fs
    · rintro p z rfl
      exact .of_forall fun _ => rfl

theorem steady_source : Steady (fun _ => True) (fun _ z => z = []) (fun _ => source) source :=
  Steady.limit steady_sourceWithin fun _ => answers_source.ne_exhausted

theorem parse_of_settles {ts : List Token} {o : Except ParseFailure (Node × Cursor)}
    (h : Settles (fun _ => source) (.start ts) o) : parse ts = o.map Prod.fst := by
  obtain ⟨b, hb⟩ := h
  exact congrArg (Except.map Prod.fst) (hb b (Nat.le_refl b))

/-- The text of each of these words is scanned to the word. -/
theorem scan_of_mem_completions : ∀ t ∈ completions, Token.scan t.text = .ok [t] := by
  simp only [completions, List.forall_mem_cons]
  refine ⟨?_, ?_, ?_, ?_, ?_, ?_, ?_, ?_, ?_, ?_, ?_, ?_, List.forall_mem_nil _⟩ <;> cbv

/-- The tokens in front of the place of an error can be continued with words to a row that
has a tree, and no row that goes on with the token at the place has one: it is rejected with
the same error. -/
theorem rejected_behind_longest_viable_prefix {tokens : List Token} {e : ParseError}
    (h : parse tokens = .error (.rejected e)) :
    e.index ≤ tokens.length ∧
      (∃ more tree, (∀ t ∈ more, Token.scan t.text = .ok [t]) ∧
        parse (tokens.take e.index ++ more) = .ok tree) ∧
      (e.index < tokens.length → ∀ other : List Token,
        other.take (e.index + 1) = tokens.take (e.index + 1) →
          parse other = .error (.rejected e)) := by
  have hsource : source (.start tokens) = .error (.rejected e) := by
    rw [parse] at h
    cases hr : source (.start tokens) with
    | ok result =>
        rw [hr] at h
        cases h
    | error f =>
        rw [hr] at h
        cases h
        rfl
  obtain ⟨passed, rest, hrest, hindex, hsettles, hmore⟩ :=
    (steady_source.prompt (.start tokens)).rejected hsource
  have htokens : tokens = passed ++ rest := hrest
  have hindex : e.index = passed.length := by simpa [Cursor.start] using hindex
  have htake : tokens.take e.index = passed := by
    rw [htokens, hindex, List.take_left]
  refine ⟨?_, ?_, fun hlt other hother => ?_⟩
  · rw [htokens, hindex, List.length_append]
    omega
  · rw [htake]
    rcases hmore with rfl | ⟨more, tree, hwords, hmore⟩
    · obtain ⟨more, tree, hwords, -, hmore⟩ := steady_source.completable
      have hparse := parse_of_settles (hmore 0 [] rfl)
      rw [List.append_nil] at hparse
      exact ⟨more, tree, fun t ht => scan_of_mem_completions t (hwords t ht), hparse⟩
    · have hparse := parse_of_settles (hmore [] rfl)
      rw [List.append_nil] at hparse
      exact ⟨more, tree, fun t ht => scan_of_mem_completions t (hwords t ht), hparse⟩
  · -- The other row has the same tokens up to the one that is rejected, and no rule looks at
    -- a token behind that.
    cases rest with
    | nil =>
        rw [htokens, hindex, List.append_nil] at hlt
        omega
    | cons t rest =>
        have hother : other.take (e.index + 1) = passed ++ [t] := by
          rw [hother, htokens, hindex, List.take_length_add_append]
          rfl
        rw [← List.take_append_drop (e.index + 1) other, hother, List.append_assoc]
        exact parse_of_settles (hsettles (t :: other.drop (e.index + 1)) rfl)

/-- A program whose first declaration ends without a semicolon. -/
def unendedTokens : List Token :=
  ((Token.scan "VAR x = 1 FUN main() DO END").toOption).getD []

/-- The declaration is rejected at the keyword that stands in place of the semicolon. -/
theorem unendedTokens_rejected :
    parse unendedTokens = .error (.rejected ⟨.expected "';'", some "FUN", 4⟩) ∧
      (∃ more tree, (∀ t ∈ more, Token.scan t.text = .ok [t]) ∧
        parse (unendedTokens.take 4 ++ more) = .ok tree) ∧
      ∀ other : List Token, other.take 5 = unendedTokens.take 5 →
        parse other = .error (.rejected ⟨.expected "';'", some "FUN", 4⟩) := by
  have hparse : parse unendedTokens = .error (.rejected ⟨.expected "';'", some "FUN", 4⟩) := by
    cbv
  have hlength : unendedTokens.length = 10 := by
    cbv
  obtain ⟨-, hmore, hother⟩ := rejected_behind_longest_viable_prefix hparse
  exact ⟨hparse, hmore, hother (by rw [hlength]; decide)⟩

end Programs

end Grammar
end BlockScript
