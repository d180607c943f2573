import BlockScript.Proofs.Grammar.Forms
import BlockScript.Proofs.Grammar.Shape
import BlockScript.Proofs.Typing.Coverage
import BlockScript.Proofs.Typing.Exactness
import Mathlib

/-!
# Checking a source text decides its typing

The tree of a source text has the shape that the equivalence of checker and typing rules asks
for.  So a text is accepted exactly when its program has a derivation, and what is recorded on
the way covers the tree.
-/

namespace BlockScript
namespace Typing

/-- A source text is accepted exactly where its program has a typing derivation.  The records
of the check are those of the derivation, there are no others, and they cover the tree. -/
theorem checking_decides_typing {text : String} {program : Node} {surroundings : List Scope}
    (hparse : Grammar.parseProgram text = .ok program)
    (hsurroundings : ∀ s ∈ surroundings, s.IsOrdinary) (trace : Trace) :
    (∀ as, (BlockScript.checkProgram surroundings trace program).1 = .ok as ↔
      Derivation.Program surroundings program as) ∧
    ∀ as, Derivation.Program surroundings program as →
      Covers program.preorder as ∧
        ∀ bs, Derivation.Program surroundings program bs → bs = as := by
  have hprogram := Grammar.isProgram_of_parse hparse
  have hformed := Grammar.every_isFormed_of_parse hparse
  have hiff : ∀ as, (BlockScript.checkProgram surroundings trace program).1 = .ok as ↔
      Derivation.Program surroundings program as :=
    fun as => checkProgram_iff hsurroundings hprogram hformed
  refine ⟨hiff, fun as has => ⟨has.covers, fun bs hbs => ?_⟩⟩
  have hsame := ((hiff bs).mpr hbs).symm.trans ((hiff as).mpr has)
  exact Except.ok.inj hsame

/-- A text with a list, a switch and a call of the function that it stands in. -/
def typedText : String :=
  "LIST xs = [1]; FUN f(n: Integer) DO SWITCH n CASE 1: f(xs[0]); DEFAULT END END " ++
    "FUN main(): Integer DO RETURN 2; END"

/-- A text whose function `main` does not return an integer. -/
def untypedText : String := "FUN main() DO RETURN 1; END"

/-- Whether the program of a text is accepted, where the text has one. -/
def accepted? (text : String) : Option Bool :=
  match Grammar.parseProgram text with
  | .ok program => some (BlockScript.checkProgram [] (.start 0) program).1.isOk
  | .error _ => none

theorem accepted?_eq_some {text : String} {answer : Bool} (h : accepted? text = some answer) :
    ∃ program, Grammar.parseProgram text = .ok program ∧
      (BlockScript.checkProgram [] (.start 0) program).1.isOk = answer := by
  unfold accepted? at h
  split at h
  · rename_i program hparse
    exact ⟨program, hparse, Option.some.inj h⟩
  · cases h

set_option maxRecDepth 50000 in
theorem accepted?_typedText : accepted? typedText = some true := by cbv

set_option maxRecDepth 20000 in
theorem accepted?_untypedText : accepted? untypedText = some false := by cbv

/-- The first of these texts has a derivation with the records of its check, which cover its
tree, and the second one has none. -/
theorem typedText_has_derivation :
    (∃ program as, Grammar.parseProgram typedText = .ok program ∧
      (BlockScript.checkProgram [] (.start 0) program).1 = .ok as ∧
      Derivation.Program [] program as ∧ Covers program.preorder as) ∧
    ∃ program, Grammar.parseProgram untypedText = .ok program ∧
      ∀ as, ¬ Derivation.Program [] program as := by
  have hnone : ∀ s ∈ ([] : List Scope), s.IsOrdinary := nofun
  obtain ⟨typed, hparse, hok⟩ := accepted?_eq_some accepted?_typedText
  obtain ⟨untyped, hparse', hfails⟩ := accepted?_eq_some accepted?_untypedText
  constructor
  · cases hcheck : (BlockScript.checkProgram [] (.start 0) typed).1 with
    | ok as =>
        have hdecides := checking_decides_typing hparse hnone (.start 0)
        have hderives := (hdecides.1 as).mp hcheck
        exact ⟨typed, as, hparse, hcheck, hderives, (hdecides.2 as hderives).1⟩
    | error e =>
        rw [hcheck] at hok
        cases hok
  · refine ⟨untyped, hparse', fun as has => ?_⟩
    rw [((checking_decides_typing hparse' hnone (.start 0)).1 as).mpr has] at hfails
    cases hfails

end Typing
end BlockScript
