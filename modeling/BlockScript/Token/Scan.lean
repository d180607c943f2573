import BlockScript.Token.Lexeme

/-!
# The tokens of a text

Blanks separate tokens and belong to none.  Every other character belongs to exactly
one token, and a literal that does not close is an error at the character that breaks
its form, or at the end of the text.
-/

namespace BlockScript

/-- A malformed literal, with the offset of the character that breaks its form. -/
structure LexError where
  cause : LexCause
  index : Nat
deriving DecidableEq, Inhabited

namespace Token

/-- The token of a lexeme that starts at a position. -/
def ofLexeme (p : Position) (l : Lexeme) : Token :=
  { kind := l.kind
    text := String.ofList l.text
    start := p.offset
    stop := p.offset + l.text.length
    line := p.line
    column := p.column }

/-- The tokens of a text whose first character stands at the given position. -/
def scanFrom (p : Position) : List Char → Except LexError (List Token)
  | [] => .ok []
  | c :: cs =>
      if Lexeme.isBlank c then scanFrom (p.advance c) cs
      else
        match _h : Lexeme.next c cs with
        | .error f => .error ⟨f.cause, p.offset + f.offset⟩
        | .ok l => do
            let tokens ← scanFrom (p.advanceAll l.text) l.rest
            .ok (ofLexeme p l :: tokens)
termination_by cs => cs.length
decreasing_by
  · exact Nat.lt_succ_self _
  · exact Lexeme.next_rest_length (by assumption)

/-- The tokens of a source text. -/
def scan (source : String) : Except LexError (List Token) :=
  scanFrom .start source.toList

end Token
end BlockScript
