import BlockScript.Proofs.Grammar.Relocation
import BlockScript.Proofs.Token.LineEnds
import BlockScript.Program

/-!
# A program in a file

Reading a file unifies its line ends.  Tokens stay what they are under this, only their places
move, and parsing does not look at places.  So a text in a file has the tree that it has by
itself, and it ends as it ends by itself; only the index of a lexical error is counted in the
text that was read.
-/

namespace BlockScript

/-- The failure of a text in a file: the index of a lexical error moves, and a grammatical
failure is at the same token. -/
def SyntaxFailure.inFile (cs : List Char) : SyntaxFailure → SyntaxFailure
  | .lexical e => .lexical (e.inFile cs)
  | .grammatical f => .grammatical f

/-- The failure of a program in a file. -/
def ProgramFailure.inFile (cs : List Char) : ProgramFailure → ProgramFailure
  | .syntactic f => .syntactic (f.inFile cs)
  | failure => failure

namespace Grammar

/-- A text has the same tree under unified line ends, or the same error at its new place. -/
theorem parseProgram_unifyNewlines (s : String) :
    parseProgram (String.ofList (Text.unifyNewlines s.toList)) =
      (parseProgram s).mapError (·.inFile s.toList) := by
  have hscan := Token.scanFrom_unifyNewlines s.toList
  simp only [parseProgram, Token.scan, String.toList_ofList]
  cases htokens : Token.scanFrom .start s.toList with
  | error e =>
      rw [htokens] at hscan
      cases htokens' : Token.scanFrom .start (Text.unifyNewlines s.toList) with
      | error e' =>
          rw [htokens'] at hscan
          cases hscan
          rfl
      | ok ts' =>
          rw [htokens'] at hscan
          cases hscan
  | ok ts =>
      rw [htokens] at hscan
      cases htokens' : Token.scanFrom .start (Text.unifyNewlines s.toList) with
      | error e' =>
          rw [htokens'] at hscan
          cases hscan
      | ok ts' =>
          rw [htokens'] at hscan
          dsimp only
          rw [parse_moved (Token.moved_of_reading (Except.ok.inj hscan))]
          cases parse ts <;> rfl

end Grammar

namespace Program

/-- What is seen of a program from a file: its result and what it wrote.  A program that is
not parsed wrote nothing. -/
def seen : Except SyntaxFailure ProgramEnd → Except ProgramFailure Value × String
  | .ok ending => (ending.result, ending.machine.output)
  | .error failure => (.error (.syntactic failure), "")

/-- Behind parsing no failure is counted in the text. -/
theorem checkAndRun_inFile (settings : Settings) (steps : Nat) (trace : Trace) (tree : Node)
    (cs : List Char) : (checkAndRun settings steps trace tree).result.mapError (·.inFile cs) =
      (checkAndRun settings steps trace tree).result := by
  unfold checkAndRun runTree
  split
  · split <;> rfl
  · rfl

/-- **A program ends in the same way from a file and from its text.** The text in the file has
the tree that it has by itself, or the same error: at the same token, or at the character
whose index is the length of the characters in front of it with their line ends unified.
Where there is a tree, the whole ends are the same.  In every case the results and the texts
written are. -/
theorem file_ends_as_text (settings : Settings) (steps level : Nat) (s : String) :
    parseFile s = (Grammar.parseProgram s).mapError (·.inFile s.toList) ∧
      (runFile settings steps level s).toOption =
        (Grammar.parseProgram s).toOption.map (fun _ => runText settings steps level s) ∧
      seen (runFile settings steps level s) =
        ((runText settings steps level s).result.mapError (·.inFile s.toList),
          (runText settings steps level s).machine.output) := by
  have hparse := Grammar.parseProgram_unifyNewlines s
  refine ⟨hparse, ?_, ?_⟩
  · simp only [runFile, parseFile, runText, hparse]
    cases Grammar.parseProgram s <;> rfl
  · simp only [runFile, parseFile, runText, hparse]
    cases Grammar.parseProgram s with
    | error f => rfl
    | ok tree => exact Prod.ext (checkAndRun_inFile settings steps _ tree _).symm rfl

/-- The line end in front of the literal counts as one character in a file. -/
example : parseFile "\r\n\"a\r\"" = .error (.lexical ⟨.unterminatedString, 3⟩) := by cbv

end Program
end BlockScript
