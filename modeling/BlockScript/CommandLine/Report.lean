import BlockScript.Program

/-!
# Reports of failures

A failure that the language defines is reported by its kind and its message, and by the
place in the text or among the tokens where it has one.  Other failures have no report
of their own.
-/

namespace BlockScript

/-- The report of a failure. -/
structure Report where
  kind : String
  message : String
  index : Option Nat
deriving DecidableEq, Inhabited

namespace Report

/-- A report in one line. -/
def text (r : Report) : String :=
  match r.index with
  | some index => r.kind ++ ": " ++ r.message ++ " at index " ++ Text.natText index
  | none => r.kind ++ ": " ++ r.message

end Report

/-- The report of a malformed literal. -/
def LexError.report (e : LexError) : Report := ⟨"LexError", e.cause.message, some e.index⟩

/-- The report of a token that does not follow the grammar. -/
def ParseError.report (e : ParseError) : Report := ⟨"ParseError", e.message, some e.index⟩

/-- The report of a broken rule. -/
def CheckError.report (e : CheckError) : Report := ⟨"AnalysisError", e.message, none⟩

/-- The report of what a program did wrong. -/
def RunError.report (e : RunError) : Report := ⟨"RuntimeError", e.message, none⟩

/-- The report of a failure to parse. -/
def SyntaxFailure.report? : SyntaxFailure → Option Report
  | lexical e => some e.report
  | grammatical (.rejected e) => some e.report
  | grammatical _ => none

/-- The report of a failed check. -/
def CheckFailure.report? : CheckFailure → Option Report
  | rejected e => some e.report
  | _ => none

/-- The report of a failed run. -/
def RunFailure.report? : RunFailure → Option Report
  | raised e => some e.report
  | _ => none

/-- The report of a program that ended without a result. -/
def ProgramFailure.report? : ProgramFailure → Option Report
  | syntactic f => f.report?
  | check f => f.report?
  | run f => f.report?

end BlockScript
