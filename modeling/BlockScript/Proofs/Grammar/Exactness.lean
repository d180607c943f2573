import BlockScript.Proofs.Grammar.Completeness
import BlockScript.Proofs.Grammar.Soundness
import Mathlib

/-!
# The parser accepts exactly its grammar

Making a tree from the tokens of a text and deriving the tokens from the grammar are the
same thing, as long as the tree names nothing by a keyword.  As the parser gives at most
one tree, the grammar is unambiguous on the tokens of a text.
-/

namespace BlockScript
namespace Grammar

/-- From the tokens of a text, the parser makes a tree without keywords as names exactly when
the tokens derive from the grammar with that tree, and no tokens derive with two trees. -/
theorem parse_eq_ok_iff_derives {text : String} {tokens : List Token}
    (h : Token.scan text = .ok tokens) :
    (∀ tree : Node, tree.NamesSatisfy IsFree → (parse tokens = .ok tree ↔ Derives tokens tree)) ∧
      ∀ tree tree' : Node, Derives tokens tree → Derives tokens tree' → tree = tree' := by
  have htokens := Token.isConsistent_of_scan h
  constructor
  · intro tree htree
    exact ⟨fun hparse => derives_of_parse hparse htree,
      fun hderives => parse_of_derives hderives htokens⟩
  · intro tree tree' hderives hderives'
    have hparse := parse_of_derives hderives htokens
    rw [parse_of_derives hderives' htokens] at hparse
    cases hparse
    rfl

/-- The tokens of a program whose function computes `1 + x * 2 - a`. -/
def sampleTokens : List Token :=
  ((Token.scan "VAL a = 7; FUN f(x: Integer) DO RETURN 1 + x * 2 - a; END").toOption).getD []

/-- The tree of that program: the product stands below the sum, and the sum below the
difference. -/
def sampleTree : Node :=
  .source [.global "a" .missing false (.literal (.integer 7))]
    [.function "f" ["x"] ["Integer"] .missing
      [.returning (.binary "-"
        (.binary "+" (.literal (.integer 1))
          (.binary "*" (.access "x" .absent) (.literal (.integer 2))))
        (.access "a" .absent))]]

/-- The sample derives from the grammar, with its tree and no other. -/
theorem sampleTokens_derives :
    Derives sampleTokens sampleTree ∧ ∀ tree, Derives sampleTokens tree → tree = sampleTree := by
  have hscan : Token.scan "VAL a = 7; FUN f(x: Integer) DO RETURN 1 + x * 2 - a; END" =
      .ok sampleTokens := by
    cbv
  have hparse : parse sampleTokens = .ok sampleTree := by
    cbv
  have hfree : sampleTree.NamesSatisfy IsFree := by
    intro s hs
    simp only [sampleTree, Node.identifiers, Node.identifiersAll, Name.missing, Name.ofText] at hs
    simp at hs
    rcases hs with rfl | rfl | rfl | rfl | rfl | rfl <;> decide
  obtain ⟨hiff, hunique⟩ := parse_eq_ok_iff_derives hscan
  have hderives := (hiff sampleTree hfree).mp hparse
  exact ⟨hderives, fun tree htree => hunique tree sampleTree htree hderives⟩

end Grammar
end BlockScript
