import BlockScript.Proofs.Programs.Containment
import BlockScript.Proofs.Running.Silence
import BlockScript.Proofs.Typing.Silence

/-!
# Programs at level zero

At level zero a trace keeps no message, so that a program should end as it would without any of
its messages.  It does, unless it announces a value that has no text: an integer with too many
digits, or a list that is nested too deep or without end.  The message is made before the level
is looked at, and the program fails there.
-/

namespace BlockScript
namespace Program

open Running

/-- Parses, checks and runs a text without a single message. -/
def runTextSilently (settings : Settings) (steps : Nat) (text : String) : ProgramEnd :=
  match Grammar.parseProgram text with
  | .ok tree =>
      match Typing.checkProgramSilently tree (.start [] (.start 0)) with
      | (.ok _, s) => runTree settings.silent steps (.start [] .empty s.trace) tree
      | (.error failure, s) => refused (.check failure) s.trace
  | .error failure => refused (.syntactic failure) (.start 0)

/-- The program of a text passes its check, and its run announces a value that has no text. -/
inductive Falters (settings : Settings) (steps : Nat) (text : String) (e : RunFailure) : Prop
  | intro {tree : Node} {value : Value} {m : Machine} :
      Grammar.parseProgram text = .ok tree →
      (checkTree settings [] (.start 0) tree).1.isOk = true →
      Announced settings steps tree (.start [] .empty (.start 0)) value m →
      textOf settings m.heap value = .error e → Falters settings steps text e

section LevelZero

variable {settings : Settings} {steps : Nat} {text : String} {tree : Node} {e : RunFailure}

/-- At level zero a tree that was parsed is checked as it is without messages. -/
theorem checkTree_level_zero (settings : Settings)
    (hparse : Grammar.parseProgram text = .ok tree) :
    checkTree settings [] (.start 0) tree =
        Typing.checkProgramSilently tree (.start [] (.start 0)) ∧
      (checkTree settings [] (.start 0) tree).2.trace = .start 0 := by
  have hcheck : checkProgram [] (.start 0) tree =
        Typing.checkProgramSilently tree (.start [] (.start 0)) ∧
      (checkProgram [] (.start 0) tree).2.trace = .start 0 := by
    rcases Typing.hushed_checkProgram tree (.start [] (.start 0)) rfl with huntyped | hsame
    · -- The type of a variable has a name where the tree comes from a text.
      have hreport := isSome_report_of_checkProgram hparse (Prod.ext huntyped rfl)
      cases hreport
    · exact hsame
  have hstrictly : checkTree settings [] (.start 0) tree = checkProgram [] (.start 0) tree := by
    unfold checkTree checkProgramStrictly
    split
    · dsimp only
      rw [if_pos (by rw [hcheck.2]; rfl)]
    · rfl
  rwa [hstrictly]

/-- With and without messages, a text that does not pass its check ends in the same way, and one
that does runs from the same machine. -/
theorem runText_of_parse (settings : Settings) (steps : Nat)
    (hparse : Grammar.parseProgram text = .ok tree) :
    ((checkTree settings [] (.start 0) tree).1.isOk = false →
      runText settings steps 0 text = runTextSilently settings steps text) ∧
    ((checkTree settings [] (.start 0) tree).1.isOk = true →
      runText settings steps 0 text = runTree settings steps (.start [] .empty (.start 0)) tree ∧
      runTextSilently settings steps text =
        runTree settings.silent steps (.start [] .empty (.start 0)) tree) := by
  obtain ⟨hsilently, htrace⟩ := checkTree_level_zero settings hparse
  unfold runText runTextSilently checkAndRun
  rw [hparse]
  dsimp only
  rw [← hsilently]
  cases hresult : checkTree settings [] (.start 0) tree with
  | mk r s =>
      rw [hresult] at htrace
      cases r with
      | error failure => exact ⟨fun _ => rfl, nofun⟩
      | ok annotations =>
          dsimp only at htrace ⊢
          rw [htrace]
          exact ⟨nofun, fun _ => ⟨rfl, rfl⟩⟩

/-- A text that does not falter ends as it does without messages. -/
theorem runText_level_zero (h : ∀ e, ¬ Falters settings steps text e) :
    runText settings steps 0 text = runTextSilently settings steps text := by
  cases hparse : Grammar.parseProgram text with
  | error failure =>
      unfold runText runTextSilently
      rw [hparse]
  | ok tree =>
      obtain ⟨hrefused, hruns⟩ := runText_of_parse settings steps hparse
      cases hcheck : (checkTree settings [] (.start 0) tree).1.isOk with
      | false => exact hrefused hcheck
      | true =>
          have hspeaks : Speaks settings steps tree (.start [] .empty (.start 0)) := by
            intro value m hannounced
            cases htext : textOf settings m.heap value with
            | ok shown => exact ⟨shown, rfl⟩
            | error e => exact absurd ⟨hparse, hcheck, hannounced, htext⟩ (h e)
          have hrun := (silent_runProgram rfl hspeaks).1
          obtain ⟨hloud, hsilently⟩ := hruns hcheck
          rw [hloud, hsilently]
          unfold runTree
          rw [hrun]

/-- A text that falters fails in its run. -/
theorem Falters.run (hreports : settings.reports = true) (h : Falters settings steps text e) :
    ∃ tree e', Grammar.parseProgram text = .ok tree ∧ e.SeenAs e' ∧
      runText settings steps 0 text = runTree settings steps (.start [] .empty (.start 0)) tree ∧
      (runTree settings steps (.start [] .empty (.start 0)) tree).result = .error (.run e') := by
  cases h with
  | @intro tree value m hparse hcheck hannounced htext =>
      obtain ⟨e', m', hseen, hrun⟩ := hannounced.fails hreports htext
      refine ⟨tree, e', hparse, hseen, ((runText_of_parse settings steps hparse).2 hcheck).1, ?_⟩
      unfold runTree
      rw [hrun]

/-- What has no text is a list, or an integer in a text that computes with numbers. -/
theorem Falters.cause (hreports : settings.reports = true) (hcalls : settings.calls ≠ 0)
    (h : Falters settings steps text e) :
    e = .endless ∨ e = .numeral ∧
      ∃ tree, Grammar.parseProgram text = .ok tree ∧ tree.contents.arithmetic := by
  obtain ⟨tree, e', hparse, hseen, -, hresult⟩ := h.run hreports
  obtain ⟨-, -, -, htext⟩ := h
  by_cases hendless : e = .endless
  · exact .inl hendless
  obtain rfl := hseen.eq_of_ne hendless
  have hknown := escapes_of_runTree hparse hcalls hresult
  rcases textOf_eq_error htext with rfl | rfl | rfl
  · exact .inl rfl
  · rcases hknown with hreport | hescapes | hexhausted | ⟨hunwritable, -⟩
    · cases hreport
    · cases hescapes with
      | numeral hparse harithmetic => exact .inr ⟨rfl, _, hparse, harithmetic⟩
      | range _ _ _ hrange => rcases hrange with hrange | hrange | hrange <;> cases hrange
    · cases hexhausted
    · cases hunwritable
  · -- A value of a source text has the shape of a value.
    rcases hknown with hreport | hescapes | hexhausted | ⟨hunwritable, -⟩
    · cases hreport
    · cases hescapes with
      | range _ _ _ hrange => rcases hrange with hrange | hrange | hrange <;> cases hrange
    · cases hexhausted
    · cases hunwritable

/-- **At level zero a program ends as it does without messages, unless it announces a value that
has no text.**  A text that does not falter has the same result or error at level zero, the same
output, variables, functions and lists as without a single message.  A text that falters fails,
with the failure of the missing text or, in a call, with the overflow of the call.  The text of
an integer is missing only where a program computes with numbers, and every other text that is
missing is that of a list. -/
theorem level_zero_is_silent (settings : Settings) (hreports : settings.reports = true)
    (steps : Nat) (text : String) :
    ((∀ e, ¬ Falters settings steps text e) →
      runText settings steps 0 text = runTextSilently settings steps text) ∧
    ∀ e, Falters settings steps text e →
      (∃ e', e.SeenAs e' ∧ (runText settings steps 0 text).result = .error (.run e')) ∧
      (settings.calls ≠ 0 → e = .endless ∨ e = .numeral ∧
        ∃ tree, Grammar.parseProgram text = .ok tree ∧ tree.contents.arithmetic) := by
  refine ⟨runText_level_zero, fun e h => ⟨?_, h.cause hreports⟩⟩
  obtain ⟨tree, e', -, hseen, hrun, hresult⟩ := h.run hreports
  exact ⟨e', hseen, hrun ▸ hresult⟩

end LevelZero

section Sample

/-- A text that assigns an integer with 4301 digits. -/
def overlongText : String := "VAR g = 0; FUN main(): Integer DO g = 10 ^ 4300; RETURN 0; END"

/-- The tree of that text. -/
def overlongProgram : Node :=
  .source [.global "g" .missing true (.literal (.integer 0))]
    [.function "main" [] [] "Integer"
      [.assignment (.access "g" .absent)
          (.binary "^" (.literal (.integer 10)) (.literal (.integer 4300))),
        .returning (.literal (.integer 0))]]

set_option maxRecDepth 20000 in
theorem parse_overlongText : Grammar.parseProgram overlongText = .ok overlongProgram := by cbv

set_option maxRecDepth 20000 in
theorem check_overlongProgram :
    (checkTree .standard [] (.start 0) overlongProgram).1.isOk = true := by cbv

/-- Whether a program ended at a numeral that is too long. -/
def isOverlong (e : ProgramEnd) : Bool :=
  match e.result with
  | .error (.run .numeral) => true
  | _ => false

theorem result_of_isOverlong {e : ProgramEnd} (h : isOverlong e = true) :
    e.result = .error (.run .numeral) := by
  unfold isOverlong at h
  split at h
  · assumption
  · cases h

/-- The message of the assignment shows the integer. -/
theorem result_overlongText :
    (runText .standard 20 0 overlongText).result = .error (.run .numeral) := by
  obtain ⟨hloud, -⟩ := (runText_of_parse .standard 20 parse_overlongText).2 check_overlongProgram
  rw [hloud]
  exact result_of_isOverlong (by decide +kernel)

theorem silentResult_overlongText :
    (runTextSilently .standard 20 overlongText).result.toOption = some (.scalar (.integer 0)) := by
  obtain ⟨-, hsilently⟩ :=
    (runText_of_parse .standard 20 parse_overlongText).2 check_overlongProgram
  rw [hsilently]
  decide +kernel

/-- The sample falters, and ends with zero where no messages are made. -/
theorem overlongText_falters :
    (runText .standard 20 0 overlongText).result = .error (.run .numeral) ∧
      (runTextSilently .standard 20 overlongText).result.toOption = some (.scalar (.integer 0)) ∧
      Falters .standard 20 overlongText .numeral := by
  refine ⟨result_overlongText, silentResult_overlongText, ?_⟩
  obtain ⟨hsame, hfails⟩ := level_zero_is_silent .standard rfl 20 overlongText
  have hfalters : ∃ e, Falters .standard 20 overlongText e := by
    by_contra hnone
    have hzero := silentResult_overlongText
    rw [← hsame (not_exists.mp hnone), result_overlongText] at hzero
    cases hzero
  obtain ⟨e, he⟩ := hfalters
  obtain ⟨⟨e', hseen, hresult⟩, -⟩ := hfails e he
  rw [result_overlongText] at hresult
  cases hresult
  rcases hseen with rfl | ⟨-, name, arity, hraised⟩
  · exact he
  · cases hraised

end Sample

end Program
end BlockScript
