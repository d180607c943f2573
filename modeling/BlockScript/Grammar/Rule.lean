import BlockScript.Text.Quoted
import BlockScript.Token.Basic

/-!
# Reading tokens

A rule reads tokens from a cursor and either gives a result with the cursor behind what
it read, or fails at a token.  The message of a failure says what was expected and
shows the token that stands there.

Rules chain as a monad.  `bind_eq_ok` and `bind_eq_error` say what a chain gives.
-/

namespace BlockScript

/-- The tokens still to be read, and how many were passed. -/
structure Cursor where
  position : Nat
  rest : List Token
deriving DecidableEq, Inhabited

/-- A demand on one token: its text or its kind. -/
inductive TokenPattern
  | text (s : String)
  | kind (k : TokenKind)
deriving DecidableEq, Inhabited

namespace TokenPattern

/-- Whether a token meets the demand. -/
def fits (p : TokenPattern) (t : Token) : Bool :=
  match p with
  | text s => t.text == s
  | kind k => t.kind == k

/-- The demand in a message. -/
def description : TokenPattern → String
  | text s => Text.quoted s
  | kind k => k.name

end TokenPattern

/-- What is wrong at a token. -/
inductive ParseCause
  | expected (what : String)
  | assignmentTarget
deriving DecidableEq, Inhabited

/-- A failure at the token of the given index, which has the given text if there is one. -/
structure ParseError where
  cause : ParseCause
  found : Option String
  index : Nat
deriving DecidableEq, Inhabited

namespace ParseCause

/-- The first half of a message. -/
def message : ParseCause → String
  | expected what => "expected " ++ what
  | assignmentTarget => "invalid assignment target"

end ParseCause

namespace ParseError

/-- The message of a failure. -/
def message (e : ParseError) : String :=
  e.cause.message ++ ", got " ++
    match e.found with
    | some text => Text.quoted text
    | none => "end of input"

end ParseError

/-- Why no tree is made from tokens. -/
inductive ParseFailure
  /-- The tokens do not follow the grammar. -/
  | rejected (error : ParseError)
  /-- The numeral of an integer has more digits than are converted. -/
  | integerNumeral
  /-- The numeral of a decimal is none. -/
  | decimalNumeral
  /-- The bound on nested rules was too small for the tokens. -/
  | exhausted
deriving DecidableEq, Inhabited

namespace Cursor

/-- The cursor before the first token. -/
def start (tokens : List Token) : Cursor := ⟨0, tokens⟩

/-- The cursor behind one more token, which need not be there. -/
def skip (c : Cursor) : Cursor := ⟨c.position + 1, c.rest.tail⟩

/-- Whether the next token meets a demand. -/
def sees (c : Cursor) (p : TokenPattern) : Bool :=
  match c.rest with
  | t :: _ => p.fits t
  | [] => false

/-- Whether the next tokens meet demands in their order. -/
def seesAll (c : Cursor) : List TokenPattern → Bool
  | [] => true
  | p :: ps => c.sees p && c.skip.seesAll ps

/-- Whether the next token has one of the given texts. -/
def seesText (c : Cursor) (texts : List String) : Bool :=
  texts.any fun s => c.sees (.text s)

/-- A failure at the next token. -/
def error (c : Cursor) (cause : ParseCause) : ParseFailure :=
  .rejected ⟨cause, c.rest.head?.map Token.text, c.position⟩

end Cursor

/-- Reads tokens from a cursor. -/
def Rule (α : Type) : Type := Cursor → Except ParseFailure (α × Cursor)

namespace Rule

variable {α β : Type}

instance : Monad Rule where
  pure a := fun c => .ok (a, c)
  bind r next := fun c =>
    match r c with
    | .ok (a, c') => next a c'
    | .error e => .error e

/-- The cursor as it stands. -/
def cursor : Rule Cursor := fun c => .ok (c, c)

/-- Fails at the next token. -/
def reject (cause : ParseCause) : Rule α := fun c => .error (c.error cause)

/-- Fails without regard to the next token. -/
def fail (failure : ParseFailure) : Rule α := fun _ => .error failure

/-- Passes the next token, which need not be there. -/
def skip : Rule Unit := fun c => .ok ((), c.skip)

/-- Whether the next token meets a demand. -/
def sees (p : TokenPattern) : Rule Bool := fun c => .ok (c.sees p, c)

/-- Passes the next tokens if they meet demands in their order, and says whether they do. -/
def accept (ps : List TokenPattern) : Rule Bool := fun c =>
  if c.seesAll ps then .ok (true, ⟨c.position + ps.length, c.rest.drop ps.length⟩)
  else .ok (false, c)

/-- Passes the next token if it has the given text, and says whether it has. -/
def acceptText (s : String) : Rule Bool := accept [.text s]

/-- Passes the next token, which has to meet a demand that messages give as `what`. -/
def expectAs (p : TokenPattern) (what : String) : Rule Token := fun c =>
  match c.rest with
  | t :: rest =>
      if p.fits t then .ok (t, ⟨c.position + 1, rest⟩) else .error (c.error (.expected what))
  | [] => .error (c.error (.expected what))

/-- Passes the next token, which has to meet a demand. -/
def expect (p : TokenPattern) : Rule Token := expectAs p p.description

/-- Passes a token of the given text. -/
def expectText (s : String) : Rule Unit := do
  let _ ← expect (.text s)

/-- Passes an identifier and gives its text. -/
def identifier (what : String) : Rule String := do
  let t ← expectAs (.kind .identifier) what
  return t.text

/-- Reads a colon and a type name, if the colon is there. -/
def optionalType : Rule (Option String) := do
  if ← acceptText ":" then
    let name ← identifier "type name"
    return some name
  else
    return none

@[simp] theorem pure_apply (a : α) (c : Cursor) : (pure a : Rule α) c = .ok (a, c) := rfl

/-- A chain succeeds when its first rule does and the second does from there. -/
theorem bind_eq_ok {r : Rule α} {next : α → Rule β} {c : Cursor} {b : β × Cursor} :
    (r >>= next) c = .ok b ↔ ∃ a c', r c = .ok (a, c') ∧ next a c' = .ok b := by
  change (match r c with
    | .ok (a, c') => next a c'
    | .error e => .error e) = .ok b ↔ _
  cases h : r c with
  | error e => simp
  | ok ac =>
    obtain ⟨a, c'⟩ := ac
    simp [and_assoc]

/-- A chain fails when its first rule does, or when the second does from there. -/
theorem bind_eq_error {r : Rule α} {next : α → Rule β} {c : Cursor} {e : ParseFailure} :
    (r >>= next) c = .error e ↔
      r c = .error e ∨ ∃ a c', r c = .ok (a, c') ∧ next a c' = .error e := by
  change (match r c with
    | .ok (a, c') => next a c'
    | .error e => .error e) = .error e ↔ _
  cases h : r c with
  | error e' => simp
  | ok ac =>
    obtain ⟨a, c'⟩ := ac
    simp [and_assoc]

end Rule
end BlockScript
