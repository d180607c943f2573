import BlockScript.CommandLine.Report
import BlockScript.Proofs.Grammar.Placement
import BlockScript.Proofs.Programs.Halves
import BlockScript.Proofs.Running.Tameness
import BlockScript.Proofs.Typing.Refusals
import Mathlib

/-!
# Failures without a report

A program that ends without a value ends with an error of the language, and the error has a
report.  What is left are numerals that are too long for their numbers, integers that operations
make too long for their texts, decimals that operations take out of range, and walks through a
list that has no end.

A call turns a walk of the last kind into an error of the language.  The call of `main` that
starts a run is the only one that does not, so that `main` may end with such a walk among its
own statements.
-/

namespace BlockScript

/-- A failure of the program of a text that is no error of the language. -/
inductive ProgramFailure.Escapes (text : String) : ProgramFailure → Prop
  | integerNumeral : Grammar.HasLongInteger text →
      Escapes text (.syntactic (.grammatical .integerNumeral))
  | decimalNumeral : 10 ^ 18 ≤ text.toList.length →
      Escapes text (.syntactic (.grammatical .decimalNumeral))
  | endless {tree : Node} : Grammar.parseProgram text = .ok tree → tree.contents.lists →
      Escapes text (.run .endless)
  | numeral {tree : Node} : Grammar.parseProgram text = .ok tree → tree.contents.arithmetic →
      Escapes text (.run .numeral)
  | range {tree : Node} {e : RunFailure} : Grammar.parseProgram text = .ok tree →
      tree.contents.arithmetic → tree.contents.decimals → e.LeavesRange → Escapes text (.run e)

namespace Grammar

/-- The tree of a source text is regular, and has what is in it. -/
theorem every_isRegular_contents {text : String} {tree : Node}
    (h : parseProgram text = .ok tree) : tree.Every (Node.IsRegular tree.contents) :=
  every_isRegular_of_parse h (every_isPlaced_of_parse h).isWithin_contents

/-- A failure to parse has a report, or a numeral is behind it. -/
theorem escapes_of_parseProgram {text : String} {f : SyntaxFailure}
    (h : parseProgram text = .error f) :
    f.report?.isSome = true ∨ (ProgramFailure.syntactic f).Escapes text := by
  rcases reason_of_parseProgram h with ⟨e, rfl⟩ | ⟨e, rfl⟩ | ⟨rfl, hlong⟩ | ⟨rfl, hlong⟩
  · exact Or.inl rfl
  · exact Or.inl rfl
  · exact Or.inr (.integerNumeral hlong)
  · exact Or.inr (.decimalNumeral hlong)

end Grammar

namespace Program

open Grammar

variable {settings : Settings} {text : String} {tree : Node}

/-- A failure of the run of a text has a report, or escapes, unless the run took too many
steps or broke off at a text that has no written form. -/
theorem escapes_of_runTree (hparse : parseProgram text = .ok tree) (hcalls : settings.calls ≠ 0)
    {steps : Nat} {trace : Trace} {f : ProgramFailure}
    (h : (runTree settings steps (.start [] .empty trace) tree).result = .error f) :
    f.report?.isSome = true ∨ f.Escapes text ∨ f = .run .exhausted ∨
      f = .run .unwritable ∧ settings.strict = true := by
  have hstart : (Machine.start [] .empty trace).IsPlain tree.contents :=
    Machine.IsPlain.start (List.forall_mem_nil _) Heap.isPlain_empty trace
  have hregular := every_isRegular_contents hparse
  unfold runTree at h
  split at h
  · cases h
  · rename_i failure machine hrun
    cases h
    have htame := (Running.tame_runProgram steps (isProgram_of_parse hparse) hregular
      hstart).of_error hrun
    rcases htame with hfailure | ⟨hzero, _⟩
    · cases hfailure with
      | raised error => exact Or.inl rfl
      | endless hlists => exact Or.inr (Or.inl (.endless hparse hlists))
      | numeral harithmetic => exact Or.inr (Or.inl (.numeral hparse harithmetic))
      | range harithmetic hdecimals hrange =>
          exact Or.inr (Or.inl (.range hparse harithmetic hdecimals hrange))
      | unwritable hstrict => exact Or.inr (Or.inr (Or.inr ⟨rfl, hstrict⟩))
      | exhausted => exact Or.inr (Or.inr (Or.inl rfl))
    · exact absurd hzero hcalls

theorem isSome_report_of_checkProgram (hparse : parseProgram text = .ok tree) {trace : Trace}
    {e : CheckFailure} {s : CheckState} (h : checkProgram [] trace tree = (.error e, s)) :
    e.report?.isSome = true := by
  have htyped : (CheckState.start [] trace).scopes.IsTyped :=
    Chain.IsTyped.root (List.forall_mem_nil _)
  have hrefuses := Typing.refuses_checkProgram (isProgram_of_parse hparse)
    (every_isRegular_contents hparse) htyped
  obtain ⟨error, rfl⟩ := hrefuses.of_error h
  rfl

/-- A program that ends without a value ends with an error of the language, unless a numeral
is too long, an operation leads to a number that is too long or out of range, or a list without
end is walked through.  Where no numeral is too long and there are no list literals and no
operations on numbers, it always does.  A call that walks through a list without end ends with
an error of the language, too, and only its arguments may end in such a walk outside of it.

Where writing is strict, the text is one without halves of surrogate pairs (`hwritable`): with a
half, a run may also break off at a line or a message that has no written form.  What is said of
calls rests on lookups, which go through any number of scopes here. -/
theorem failures_are_contained (settings : Settings) (hcalls : settings.calls ≠ 0)
    (steps level : Nat) (text : String)
    (hwritable : settings.strict = true → Text.isWritable text = true) :
    (∀ f : ProgramFailure, (runText settings steps level text).result = .error f →
      f.report?.isSome = true ∨ f.Escapes text ∨ f = .run .exhausted) ∧
    ∀ (calls : Nat) (name : Name) (arguments : List Node) (m m' : Machine),
      Running.evaluate settings (steps + 1) calls (.call name arguments) m =
        (.error .endless, m') →
        Running.evaluateAll (Running.evaluate settings steps calls) arguments m =
          (.error .endless, m') := by
  refine ⟨?_, fun _ _ _ _ _ h => Running.evaluateAll_of_endless h⟩
  intro f h
  unfold runText at h
  split at h
  · rename_i tree hparse
    have hwhole (hstrict : settings.strict = true) := whole_of_parse hparse (hwritable hstrict)
    unfold checkAndRun at h
    rw [checkTree_of_whole hwhole [] rfl] at h
    split at h
    · rcases escapes_of_runTree hparse hcalls h with hreport | hescapes | hexhausted | hunwritable
      · exact Or.inl hreport
      · exact Or.inr (Or.inl hescapes)
      · exact Or.inr (Or.inr hexhausted)
      · obtain ⟨rfl, hstrict⟩ := hunwritable
        exact absurd h (runTree_ne_unwritable (hwhole hstrict) settings steps _)
    · rename_i failure s hcheck
      cases h
      exact Or.inl (isSome_report_of_checkProgram hparse hcheck)
  · rename_i failure hparse
    cases h
    rcases escapes_of_parseProgram hparse with hreport | hescapes
    · exact Or.inl hreport
    · exact Or.inr (Or.inl hescapes)

/-- A text that puts a list into itself among the statements of `main`. -/
def knottedText : String := "LIST a = [1]; FUN main(): Integer DO a[0] = a; RETURN 0; END"

/-- The tree of that text. -/
def knottedProgram : Node :=
  .source [.global "a" .missing true (.list [.literal (.integer 1)])]
    [.function "main" [] [] "Integer"
      [.assignment (.access "a" (.literal (.integer 0))) (.access "a" .absent),
        .returning (.literal (.integer 0))]]

set_option maxRecDepth 20000 in
theorem parse_knottedText : parseProgram knottedText = .ok knottedProgram := by cbv

set_option maxRecDepth 20000 in
theorem check_knottedProgram : (checkTree .standard [] (.start 0) knottedProgram).1.isOk = true ∧
    (checkTree .standard [] (.start 0) knottedProgram).2.trace = .start 0 :=
  ⟨by cbv, by cbv⟩

/-- Whether a program ended in a walk without end. -/
def isEndless (e : ProgramEnd) : Bool :=
  match e.result with
  | .error (.run .endless) => true
  | _ => false

theorem result_of_isEndless {e : ProgramEnd} (h : isEndless e = true) :
    e.result = .error (.run .endless) := by
  unfold isEndless at h
  split at h
  · assumption
  · cases h

/-- The message of the assignment shows the list, which has no end by then. -/
theorem result_knottedText :
    (runText .standard 20 0 knottedText).result = .error (.run .endless) := by
  obtain ⟨hok, htrace⟩ := check_knottedProgram
  have hrun : isEndless (runTree .standard 20 (.start [] .empty (.start 0)) knottedProgram) = true
    := by decide +kernel
  rw [runText_of_isOk 20 parse_knottedText hok, htrace]
  exact result_of_isEndless hrun

/-- The sample ends without a report, as one of the failures that escape. -/
theorem knottedText_escapes :
    (runText .standard 20 0 knottedText).result = .error (.run .endless) ∧
      (ProgramFailure.run .endless).report? = none ∧
      (ProgramFailure.run .endless).Escapes knottedText := by
  refine ⟨result_knottedText, rfl, ?_⟩
  have hcontained := (failures_are_contained .standard (by decide) 20 0 knottedText nofun).1
    (.run .endless) result_knottedText
  rcases hcontained with hreport | hescapes | hexhausted
  · cases hreport
  · exact hescapes
  · cases hexhausted

end Program
end BlockScript
