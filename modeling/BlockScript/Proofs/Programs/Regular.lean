import BlockScript.Proofs.Grammar.Placement
import BlockScript.Proofs.Running.Tameness
import BlockScript.Proofs.Typing.Refusals
import Mathlib

/-!
# What source text comes to

The tree of a source text is regular, and the checker and the runner were made for regular
trees: the check of one ends with its annotations or a broken rule, and its run never ends at
a node out of place, at a part that is missing or at a value of the wrong kind.  A run need
not follow a check for that.
-/

namespace BlockScript

/-- A failure of a run that no rule of the language is behind: a node out of place, a part or an
argument that is missing, a value of a kind that the operation was not made for, or a name that
is none. -/
def RunFailure.IsDispatch : RunFailure → Prop
  | .misplacedStatement _ | .misplacedExpression _ | .misplacedValue _ | .missingPart
  | .missingArgument | .specialOperand | .wrongShape => True
  | _ => False

theorem RunFailure.IsTame.not_isDispatch {settings : Settings} {has : Contents} {e : RunFailure}
    (h : e.IsTame settings has) : ¬ e.IsDispatch := by
  cases h with
  | range _ _ h => rcases h with rfl | rfl | rfl <;> exact id
  | _ => exact id

namespace Grammar

/-- The tree of a source text is regular, whatever there is in it. -/
theorem every_isRegular {text : String} {tree : Node} (h : parseProgram text = .ok tree) :
    tree.Every (Node.IsRegular .any) :=
  every_isRegular_of_parse h ((every_isPlaced_of_parse h).map fun _ _ => Node.isWithin_any)

end Grammar

namespace Running

open BlockScript.Computation

theorem index_of_requireIndex {reference i : Nat} {value : Value} {m m' : Machine}
    (h : requireIndex reference value m = (.ok i, m')) : i < (m'.heap.items reference).length := by
  have hindex : (requireIndex reference value).Ensures m
      (fun i m' => i < (m'.heap.items reference).length) fun _ => True :=
    ensures_requireIndex (fun _ hi => hi) (fun _ => trivial) trivial trivial
  exact hindex.of_ok h

/-- A place in a list that is read or stored into is one that the list has. -/
theorem index_of_locate {evaluate : Node → Running Value} {name : Name} {value : Value}
    {offset : Node} {reference i : Nat} {m m' : Machine}
    (h : locate evaluate name value offset m = (.ok (reference, i), m')) :
    i < (m'.heap.items reference).length := by
  obtain ⟨r, m₁, _, h⟩ := bind_eq_ok.mp h
  obtain ⟨index, m₂, _, h⟩ := bind_eq_ok.mp h
  obtain ⟨j, m₃, hindex, h⟩ := bind_eq_ok.mp h
  cases h
  exact index_of_requireIndex hindex

end Running

namespace Program

open Grammar

/-- Source text is scanned and parsed, or refused for a malformed literal or a token that
does not follow the grammar, unless a numeral in it is longer than numbers can be.  The tree
is well shaped.  Its check ends with annotations or a broken rule.  Its run, checked or not,
never ends at something that the runner was not made for, and an item that is read or
stored into is one that its list has. -/
theorem source_text_is_handled :
    (∀ (text : String) (f : SyntaxFailure), parseProgram text = .error f →
      (∃ e, f = .lexical e) ∨ (∃ e, f = .grammatical (.rejected e)) ∨
        (f = .grammatical .integerNumeral ∧ HasLongInteger text) ∨
        (f = .grammatical .decimalNumeral ∧ 10 ^ 18 ≤ text.toList.length)) ∧
    ∀ (text : String) (tree : Node), parseProgram text = .ok tree →
      (tree.IsProgram ∧ tree.Every (Node.IsRegular .any)) ∧
      (∀ (surroundings : List Scope) (trace : Trace), (∀ s ∈ surroundings, s.IsTyped) →
        ∀ e, (checkProgram surroundings trace tree).1 = .error e → e.IsRejection) ∧
      (∀ (settings : Settings) (steps : Nat) (surroundings : List Scope) (heap : Heap)
        (trace : Trace), (∀ s ∈ surroundings, s.IsPlain .any) → heap.IsPlain .any →
        ∀ e m, Running.runProgram settings steps tree (.start surroundings heap trace) =
          (.error e, m) → ¬ e.IsDispatch) ∧
      ∀ (settings : Settings) (steps calls : Nat) (name : Name) (value : Value) (offset : Node)
        (m m' : Machine) (reference i : Nat),
        Running.locate (Running.evaluate settings steps calls) name value offset m =
          (.ok (reference, i), m') → i < (m'.heap.items reference).length := by
  refine ⟨fun text f h => reason_of_parseProgram h, ?_⟩
  intro text tree hparse
  have hprogram := isProgram_of_parse hparse
  have hregular := every_isRegular hparse
  refine ⟨⟨hprogram, hregular⟩, ?_, ?_, ?_⟩
  · intro surroundings trace hsurroundings e he
    have hstart : (CheckState.start surroundings trace).scopes.IsTyped :=
      Chain.IsTyped.root hsurroundings
    exact (Typing.refuses_checkProgram hprogram hregular hstart).of_error
      (t := (checkProgram surroundings trace tree).2) (Prod.ext he rfl)
  · intro settings steps surroundings heap trace hscopes hheap e m hrun
    have hstart := Machine.IsPlain.start hscopes hheap trace
    rcases (Running.tame_runProgram steps hprogram hregular hstart).of_error hrun with
      he | ⟨_, rfl⟩
    · exact he.not_isDispatch
    · exact id
  · intro settings steps calls name value offset m m' reference i h
    exact Running.index_of_locate h

/-- A text that ends where a parameter is expected. -/
def brokenText : String := "FUN main("

/-- What is wrong with that text. -/
def brokenFailure : SyntaxFailure :=
  .grammatical (.rejected ⟨.expected "parameter name", none, 3⟩)

theorem parse_brokenText : parseProgram brokenText = .error brokenFailure := by cbv

/-- A text that breaks a rule, with a run that asks for an item which its list has not. -/
def outsideText : String := "LIST a = [1]; FUN main(): String DO RETURN a[3]; END"

/-- The tree of that text. -/
def outsideProgram : Node :=
  .source [.global "a" .missing true (.list [.literal (.integer 1)])]
    [.function "main" [] [] "String" [.returning (.access "a" (.literal (.integer 3)))]]

set_option maxRecDepth 20000 in
theorem parse_outsideText : parseProgram outsideText = .ok outsideProgram := by cbv

set_option maxRecDepth 20000 in
theorem check_outsideProgram :
    ∃ e, (checkProgram [] (.start 0) outsideProgram).1 = .error e := by
  have hfails : (checkProgram [] (.start 0) outsideProgram).1.isOk = false := by cbv
  cases hcheck : (checkProgram [] (.start 0) outsideProgram).1 with
  | ok annotations =>
      rw [hcheck] at hfails
      cases hfails
  | error e => exact ⟨e, rfl⟩

theorem run_outsideProgram : ∃ e m,
    Running.runProgram .standard 20 outsideProgram (.start [] .empty (.start 0)) =
      (.error e, m) := by
  have hfails : (Running.runProgram .standard 20 outsideProgram
      (.start [] .empty (.start 0))).1.isOk = false := by decide +kernel
  cases hrun : Running.runProgram .standard 20 outsideProgram (.start [] .empty (.start 0)) with
  | mk result m =>
      rw [hrun] at hfails
      cases result with
      | ok value => cases hfails
      | error e => exact ⟨e, m, rfl⟩

/-- A machine with a list of one item. -/
def listed : Machine := .start [] (Heap.empty.allocate [.nil]).2 (.start 0)

theorem locate_listed :
    Running.locate (Running.evaluate .standard 1 9) "a" (.list 0) (.literal (.integer 0)) listed =
      (.ok (0, 0), listed) := rfl

/-- The samples are handled: the one that ends early, and the one that fails its check and its
run. -/
theorem samples_are_handled :
    ((∃ e, brokenFailure = .lexical e) ∨ (∃ e, brokenFailure = .grammatical (.rejected e)) ∨
      (brokenFailure = .grammatical .integerNumeral ∧ HasLongInteger brokenText) ∨
      (brokenFailure = .grammatical .decimalNumeral ∧ 10 ^ 18 ≤ brokenText.toList.length)) ∧
    (outsideProgram.IsProgram ∧ outsideProgram.Every (Node.IsRegular .any)) ∧
    (∃ e, (checkProgram [] (.start 0) outsideProgram).1 = .error e ∧ e.IsRejection) ∧
    (∃ e m, Running.runProgram .standard 20 outsideProgram (.start [] .empty (.start 0)) =
      (.error e, m) ∧ ¬ e.IsDispatch) ∧
    0 < (listed.heap.items 0).length := by
  obtain ⟨hshape, hcheck, hrun, hlocate⟩ := source_text_is_handled.2 outsideText outsideProgram
    parse_outsideText
  obtain ⟨e, he⟩ := check_outsideProgram
  obtain ⟨e', m, he'⟩ := run_outsideProgram
  refine ⟨source_text_is_handled.1 brokenText brokenFailure parse_brokenText, hshape,
    ⟨e, he, hcheck [] (.start 0) (List.forall_mem_nil _) e he⟩, ⟨e', m, he', ?_⟩, ?_⟩
  · exact hrun .standard 20 [] .empty (.start 0) (List.forall_mem_nil _) Heap.isPlain_empty e' m he'
  · exact hlocate .standard 1 9 "a" (.list 0) (.literal (.integer 0)) listed listed 0 0
      locate_listed

end Program
end BlockScript
