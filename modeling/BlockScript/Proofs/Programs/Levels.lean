import BlockScript.Proofs.Programs.Halves
import Mathlib

/-!
# Levels of the trace

A program that is given as text ends in the same way whatever the level of its trace is, and
the trace of a lower level is that of a higher one without the messages above the lower level.
Both hold of runs that fail as well, in the check or midway.

The traces of two levels are nested when the check starts, and every message keeps them so.

A file takes no message that holds a half of a surrogate pair, and such a message is made only for
the levels that have it.  So where writing is strict, a text with a half in it may end in different
ways at different levels, and what is said of levels is said of texts that can be written
themselves.
-/

namespace BlockScript

/-- A trace of a level has the messages of another one, of no lower level, up to its own. -/
structure Trace.Nested (low : Nat) (t t' : Trace) : Prop where
  level : t.level = low
  le : low ≤ t'.level
  messages : t.messages = t'.messages.filter fun m => decide (m.1 ≤ low)

namespace Trace

variable {low : Nat}

theorem nested_start {high : Nat} (h : low ≤ high) : (start low).Nested low (start high) :=
  ⟨rfl, h, rfl⟩

/-- A message is kept by both of two nested traces, by the one of the higher level, or by
none. -/
theorem Nested.note {t t' : Trace} (h : t.Nested low t') (level : Nat) (message : String) :
    (t.note level message).Nested low (t'.note level message) := by
  obtain ⟨hlevel, hle, hmessages⟩ := h
  unfold Trace.note
  by_cases hlow : level ≤ low
  · rw [if_pos (hlevel ▸ hlow), if_pos (Nat.le_trans hlow hle)]
    refine ⟨hlevel, hle, ?_⟩
    rw [List.filter_cons_of_pos (by simpa using hlow), ← hmessages]
  · rw [if_neg (hlevel ▸ hlow)]
    split
    · refine ⟨hlevel, hle, ?_⟩
      rw [List.filter_cons_of_neg (by simpa using hlow), ← hmessages]
    · exact ⟨hlevel, hle, hmessages⟩

end Trace

namespace Running

/-- Messages do not tell nested traces apart where they can be written or need not be. -/
theorem harmless_nested {settings : Settings} {P : Scalar → Prop}
    (hwritten : settings.strict = true → ∀ text, P (.string text) → Text.isWritable text = true)
    (low : Nat) : Harmless settings P (Trace.Nested low) where
  note _ _ level message _ h := h.note level message
  refuses t t' level message hmessage _ := by
    have hwritable := fun hstrict => hwritten hstrict message hmessage
    rw [refuses_eq_false hwritable, refuses_eq_false hwritable]

/-- A property that every scalar has is kept. -/
theorem preserved_true (settings : Settings) : Preserved settings fun _ => True where
  nil := trivial
  boolean _ := trivial
  tree _ _ _ _ := trivial
  operate _ _ _ _ v _ _ _ _ := by cases v <;> trivial
  text _ _ _ _ _ _ := trivial
  composes := Text.composes_true

end Running

/-- Two programs end in the same way, and the trace of the first one has the messages of the
second one's up to a level. -/
structure ProgramEnd.Nested (level : Nat) (a b : ProgramEnd) : Prop where
  result : a.result = b.result
  output : a.machine.output = b.machine.output
  scopes : a.machine.scopes = b.machine.scopes
  heap : a.machine.heap = b.machine.heap
  messages : a.machine.trace.messages =
    b.machine.trace.messages.filter fun m => decide (m.1 ≤ level)

namespace Program

open BlockScript.Computation Running

variable {settings : Settings} {low : Nat} {t t' : Trace}

theorem nested_refused (failure : ProgramFailure) (h : t.Nested low t') :
    (refused failure t).Nested low (refused failure t') :=
  ⟨rfl, rfl, rfl, rfl, h.messages⟩

/-- Twins whose runs have the same outcome are the machines of programs that end in the same
way. -/
theorem nested_of_twins {P : Scalar → Prop} {m m' : Machine}
    (h : m.Twins (Trace.Nested low) P m') (result : Except ProgramFailure Value) :
    ProgramEnd.Nested low ⟨result, m⟩ ⟨result, m'⟩ := by
  cases h with
  | intro htrace _ => exact ⟨rfl, rfl, rfl, rfl, htrace.messages⟩

/-- A tree whose literals and names have a property runs in the same way from nested traces. -/
theorem nested_runTree {P : Scalar → Prop} (hP : Preserved settings P)
    (hwritten : settings.strict = true → ∀ text, P (.string text) → Text.isWritable text = true)
    (steps : Nat) {tree : Node} (htree : tree.Every (Node.Only P)) (h : t.Nested low t') :
    (runTree settings steps (.start [] .empty t) tree).Nested low
      (runTree settings steps (.start [] .empty t') tree) := by
  have hstart : (Machine.start [] .empty t).Twins (Trace.Nested low) P (.start [] .empty t') :=
    .intro h (.start (List.forall_mem_nil _) Heap.every_empty t)
  obtain ⟨hresult, htwins⟩ :=
    twinned_runProgram (harmless_nested hwritten low) hP steps htree hstart
  unfold runTree
  cases hlow : runProgram settings steps tree (.start [] .empty t) with
  | mk r m =>
      cases hhigh : runProgram settings steps tree (.start [] .empty t') with
      | mk r' m' =>
          rw [hlow, hhigh] at hresult htwins
          cases hresult with
          | ok hvalue =>
              obtain ⟨rfl, -⟩ := hvalue
              exact nested_of_twins htwins _
          | error he =>
              obtain ⟨rfl, -⟩ := he
              exact nested_of_twins htwins _

/-- A tree that holds no halves where writing is strict runs in the same way from nested
traces. -/
theorem nested_runTree_of_whole {tree : Node}
    (hwhole : settings.strict = true → tree.Every (Node.Only Scalar.IsWhole)) (steps : Nat)
    (h : t.Nested low t') :
    (runTree settings steps (.start [] .empty t) tree).Nested low
      (runTree settings steps (.start [] .empty t') tree) := by
  cases hstrict : settings.strict with
  | true =>
      exact nested_runTree (preserved_isWhole settings) (fun _ _ h => h) steps (hwhole hstrict) h
  | false =>
      have hany := Node.every_of_forall (P := Node.Only fun _ => True)
        (fun _ => ⟨fun _ _ => trivial, fun _ _ => trivial⟩) tree
      refine nested_runTree (preserved_true settings) (fun h => ?_) steps hany h
      rw [hstrict] at h
      cases h

/-- A check has the same result from nested traces, and leaves nested traces. -/
theorem nested_check (h : t.Nested low t') (tree : Node) :
    (checkProgram [] t tree).1 = (checkProgram [] t' tree).1 ∧
      (checkProgram [] t tree).2.trace.Nested low (checkProgram [] t' tree).2.trace := by
  have hnotes : Typing.KeptByNotes (fun _ => True) (Trace.Nested low) :=
    ⟨Text.composes_true, fun _ _ level message _ h => h.note level message⟩
  have hnamed := Node.every_of_forall (P := Node.Named fun _ => True) (fun _ _ _ => trivial) tree
  have hstart : Typing.SameBut (Trace.Nested low) (.start [] t) (.start [] t') :=
    ⟨⟨rfl, rfl⟩, h⟩
  obtain ⟨hresult, hstate⟩ := Typing.blind_checkProgram hnotes hnamed hstart
  exact ⟨hresult, hstate.trace⟩

theorem nested_checkAndRun {tree : Node}
    (hwhole : settings.strict = true → tree.Every (Node.Only Scalar.IsWhole)) (steps : Nat)
    {high : Nat} (hlevels : low ≤ high) :
    (checkAndRun settings steps (.start low) tree).Nested low
      (checkAndRun settings steps (.start high) tree) := by
  obtain ⟨hresult, htrace⟩ := nested_check (Trace.nested_start hlevels) tree
  unfold checkAndRun
  rw [checkTree_of_whole hwhole [] rfl, checkTree_of_whole hwhole [] rfl]
  cases hlow : checkProgram [] (.start low) tree with
  | mk r c =>
      cases hhigh : checkProgram [] (.start high) tree with
      | mk r' c' =>
          rw [hlow, hhigh] at hresult htrace
          obtain rfl : r = r' := hresult
          cases r with
          | ok annotations => exact nested_runTree_of_whole hwhole steps htrace
          | error failure => exact nested_refused (.check failure) htrace

/-- **The level of the trace never changes a run, and levels are nested.** At two levels a
text that can be written ends with the same result or the same error, has printed the same output
and has left the same variables and lists, and the messages at the lower level are those at the
higher one whose own level is at most the lower, in the same order.  Where writing is not strict,
every text does. -/
theorem levels_are_nested (settings : Settings) (steps : Nat) {low high : Nat}
    (hlevels : low ≤ high) {text : String}
    (hwritable : settings.strict = true → Text.isWritable text = true) :
    (runText settings steps low text).Nested low (runText settings steps high text) := by
  unfold runText
  cases hparse : Grammar.parseProgram text with
  | ok tree =>
      have hwhole := fun hstrict => Grammar.whole_of_parse hparse (hwritable hstrict)
      exact nested_checkAndRun hwhole steps hlevels
  | error failure => exact nested_refused (.syntactic failure) (Trace.nested_start hlevels)

/-- A text whose run assigns a variable, which the second level reports, and then fails. -/
def dividingText : String := "VAR a = 1; FUN main(): Integer DO a = 2; RETURN a / 0; END"

theorem levels_of_dividingText_are_nested :
    (runText Settings.standard.strictly 20 1 dividingText).Nested 1
      (runText Settings.standard.strictly 20 3 dividingText) :=
  levels_are_nested _ 20 (by decide) fun _ => by decide

/-- A text that declares a character which is one half of a surrogate pair. -/
def halfText : String :=
  "FUN main(): Integer DO LET c = '" ++ String.singleton (Text.standIn 0xD800) ++
    "'; RETURN 0; END"

/-- The tree of that text. -/
def halfProgram : Node :=
  .source [] [.function "main" [] [] "Integer"
    [.declaration "c" .missing (.literal (.ofCharacter (String.singleton (Text.standIn 0xD800)))),
      .returning (.literal (.integer 0))]]

/-- The trace behind its check. -/
def halfTrace (level : Nat) : Trace :=
  ((((Trace.start level).note 1 "analyze: start").note 1 "function main/0").note 2
    "declare c: Character").note 1 "analyze: done"

set_option maxRecDepth 20000 in
theorem parse_halfText : Grammar.parseProgram halfText = .ok halfProgram := by cbv

set_option maxRecDepth 20000 in
theorem check_halfProgram : ∀ level ∈ [1, 2],
    (checkTree Settings.standard.strictly [] (.start level) halfProgram).1.isOk = true ∧
      (checkTree Settings.standard.strictly [] (.start level) halfProgram).2.trace =
        halfTrace level := by
  simp only [List.forall_mem_cons]
  exact ⟨⟨by cbv, by cbv⟩, ⟨by cbv, by cbv⟩, List.forall_mem_nil _⟩

theorem runText_halfText {level : Nat} (h : level ∈ [1, 2]) :
    runText Settings.standard.strictly 20 level halfText =
      runTree Settings.standard.strictly 20 (.start [] .empty (halfTrace level)) halfProgram := by
  obtain ⟨hok, htrace⟩ := check_halfProgram level h
  rw [runText_of_isOk 20 parse_halfText hok, htrace]

/-- Where writing is strict, the text with a half ends with a result at the first level, and
without one at the second, which reports the character. -/
theorem levels_of_halfText_differ :
    (runText Settings.standard.strictly 20 1 halfText).result.toOption =
        some (.scalar (.integer 0)) ∧
      (runText Settings.standard.strictly 20 2 halfText).result.toOption = none ∧
      ¬ (runText Settings.standard.strictly 20 1 halfText).Nested 1
        (runText Settings.standard.strictly 20 2 halfText) := by
  have hlow : (runText Settings.standard.strictly 20 1 halfText).result.toOption =
      some (.scalar (.integer 0)) := by
    rw [runText_halfText (by decide)]
    decide +kernel
  have hhigh : (runText Settings.standard.strictly 20 2 halfText).result.toOption = none := by
    rw [runText_halfText (by decide)]
    decide +kernel
  refine ⟨hlow, hhigh, fun h => ?_⟩
  rw [h.result, hhigh] at hlow
  cases hlow

end Program

end BlockScript
