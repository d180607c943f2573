import BlockScript.Proofs.Agreement.Programs
import BlockScript.Proofs.Grammar.Shape
import Mathlib

/-!
# Names of checked programs are bound

A program is checked in the scopes of its text and runs in the scopes of its calls.  Even so
no run of a program that was checked fails because of a name: none is unbound, none is bound
twice in one scope, `main` is there, and nothing immutable is assigned to.
-/

namespace BlockScript
namespace Running

open BlockScript.Computation

/-- No run of a source text that was checked fails because of a name, however many steps it
takes and however deep its calls nest. -/
theorem names_stay_bound {text : String} {program : Node} {trace : Trace}
    {annotations : List Annotation} {checked : CheckState}
    (hparse : Grammar.parseProgram text = .ok program)
    (hcheck : checkProgram [] trace program = (.ok annotations, checked))
    (settings : Settings) (steps : Nat) (trace' : Trace) :
    ¬ ∃ e m, runProgram settings steps program (.start [] .empty trace') = (.error e, m) ∧
      e.IsResolution := by
  have hprogram : program.IsProgram := Grammar.isProgram_of_parse hparse
  have hadmits : AdmitsProgram .names program := nofun
  have hrun := ensures_runProgram_agrees settings steps .empty trace' hprogram hadmits hcheck
  rintro ⟨e, m, hfails, hresolution⟩
  rcases hrun.of_error hfails with haccepted | ⟨rfl, _⟩
  · exact haccepted hresolution
  · exact hresolution

/-- A program whose function assigns to a global that a local variable of its caller hides. -/
def hidingText : String :=
  "VAR n = 2; FUN f() DO n = n + 1; END FUN main(): Integer DO LET n = 7; f(); RETURN n; END"

/-- The tree of that program. -/
def hidingProgram : Node :=
  .source [.global "n" .missing true (.literal (.integer 2))]
    [.function "f" [] [] .missing
      [.assignment (.access "n" .absent)
        (.binary "+" (.access "n" .absent) (.literal (.integer 1)))],
      .function "main" [] [] "Integer"
        [.declaration "n" .missing (.literal (.integer 7)), .evaluation (.call "f" []),
          .returning (.access "n" .absent)]]

set_option maxRecDepth 10000 in
theorem parse_hidingText : Grammar.parseProgram hidingText = .ok hidingProgram := by cbv

/-- A check that succeeds gives the records of a program. -/
theorem exists_of_isOk {surroundings : List Scope} {trace : Trace} {program : Node}
    (hok : (checkProgram surroundings trace program).1.isOk = true) :
    ∃ annotations checked,
      checkProgram surroundings trace program = (.ok annotations, checked) := by
  cases h : checkProgram surroundings trace program with
  | mk result checked =>
      rw [h] at hok
      cases result with
      | ok annotations => exact ⟨annotations, checked, rfl⟩
      | error e => cases hok

theorem check_hidingProgram : ∃ annotations checked,
    checkProgram [] (.start 0) hidingProgram = (.ok annotations, checked) := by
  have hok : (checkProgram [] (.start 0) hidingProgram).1.isOk = true := by cbv
  exact exists_of_isOk hok

/-- The names of the sample are bound in the scopes of its calls too. -/
theorem names_of_hidingProgram_stay_bound :
    Grammar.parseProgram hidingText = .ok hidingProgram ∧
      (∃ annotations checked,
        checkProgram [] (.start 0) hidingProgram = (.ok annotations, checked)) ∧
      ¬ ∃ e m,
        runProgram .standard 100 hidingProgram (.start [] .empty (.start 0)) = (.error e, m) ∧
          e.IsResolution := by
  obtain ⟨annotations, checked, hcheck⟩ := check_hidingProgram
  refine ⟨parse_hidingText, ⟨annotations, checked, hcheck⟩, ?_⟩
  exact names_stay_bound parse_hidingText hcheck .standard 100 (.start 0)

end Running
end BlockScript
