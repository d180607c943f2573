import BlockScript.Grammar.Source

/-!
# Derivations of the grammar

The grammar of source text as relations, one for each nonterminal.  A relation holds of a
row of tokens, a tree and a rest when the tokens in front of the rest derive from the
nonterminal and the tree is that of the derivation.  Nothing here reads tokens one way or
another: the relations say which rows derive, not how a derivation is found.

```
source     ::= global* function*
global     ::= ( 'LIST' id (':' id)? '=' '[' expr (',' expr)* ']'
               | 'VAR' id (':' id)? ('=' expr)?
               | 'VAL' id (':' id)? '=' expr
               | 'LET' id (':' id)? ('=' expr)? ) ';'
function   ::= 'FUN' id '(' (param (',' param)*)? ')' (':' id)? 'DO' block 'END'
param      ::= id (':' id)?
block      ::= statement*
statement  ::= 'LET' id (':' id)? ('=' expr)? ';'
             | 'SWITCH' expr ('CASE' expr ':' block)+ 'DEFAULT' ':'? block 'END'
             | 'IF' expr 'DO' block ('ELSE' block)? 'END'
             | 'WHILE' expr 'DO' block 'END'
             | 'RETURN' expr? ';'
             | expr ('=' expr)? ';'
expr       ::= comparison (('&&'|'||') comparison)*
comparison ::= additive (('<'|'>'|'=='|'!=') additive)*
additive   ::= multiplicative (('+'|'-') multiplicative)*
multiplicative ::= primary (('*'|'/'|'^') primary)*
primary    ::= 'NIL' | 'TRUE' | 'FALSE' | INTEGER | DECIMAL | CHARACTER | STRING
             | id ('(' (expr (',' expr)*)? ')' | '[' expr ']')?
             | '[' expr (',' expr)* ']'
             | '(' expr ')'
```

Which identifier tokens are an `id` is a parameter, `allowed`: the language forbids its
keywords, and some facts about trees hold whatever is allowed.
-/

namespace BlockScript
namespace Grammar

/-- The words that are no names. -/
def keywords : List String :=
  ["LIST", "VAR", "VAL", "LET", "FUN", "DO", "END", "ELSE", "CASE", "DEFAULT", "SWITCH", "IF",
    "WHILE", "RETURN", "NIL", "TRUE", "FALSE"]

/-- Texts that may be names. -/
def IsFree (s : String) : Prop := s ∉ keywords

instance (s : String) : Decidable (IsFree s) := inferInstanceAs (Decidable (s ∉ keywords))

namespace Derivation

/-- The binary operators by their layers, from the weakest to the strongest. -/
def precedence : List (List String) :=
  [["&&", "||"], ["<", ">", "==", "!="], ["+", "-"], ["*", "/", "^"]]

/-- The first token has a given text. -/
inductive Terminal (s : String) : List Token → List Token → Prop
  | intro {t : Token} {rest : List Token} : t.text = s → Terminal s (t :: rest) rest

/-- The letters that follow a backslash in an escape, with the characters they stand for. -/
def escapes : List (Char × Char) :=
  [('b', '\x08'), ('n', '\n'), ('r', '\r'), ('t', '\t'), ('\'', '\''), ('"', '"'),
    ('\\', '\\')]

/-- A text and what it says when its escapes are taken from left to right.  A character
stands for itself unless it is a backslash that starts an escape. -/
inductive Unescaped : List Char → List Char → Prop
  | nil : Unescaped [] []
  | escape {letter c : Char} {cs ds : List Char} :
      (letter, c) ∈ escapes → Unescaped cs ds → Unescaped ('\\' :: letter :: cs) (c :: ds)
  | plain {c : Char} {cs ds : List Char} :
      (c = '\\' → ∀ letter ∈ cs.head?, ∀ d, (letter, d) ∉ escapes) → Unescaped cs ds →
      Unescaped (c :: cs) (c :: ds)

/-- A quoted text and its content: the quotes are left out and the escapes are taken. -/
inductive Unquoted : String → String → Prop
  | intro {text : String} {ds : List Char} :
      Unescaped text.toList.tail.dropLast ds → Unquoted text (String.ofList ds)

/-- A token that is a literal, with its value. -/
inductive LiteralToken : List Token → Scalar → List Token → Prop
  | integer {t : Token} {rest : List Token} {n : Int} :
      t.kind = .integer → Text.readLooseInt? t.text.toList = some n →
      LiteralToken (t :: rest) (.integer n) rest
  | decimal {t : Token} {rest : List Token} {d : Decimal} :
      t.kind = .decimal → Decimal.ofText? t.text = some d →
      LiteralToken (t :: rest) (.decimal d) rest
  | character {t : Token} {rest : List Token} {content : String} :
      t.kind = .character → Unquoted t.text content →
      LiteralToken (t :: rest) (.ofCharacter content) rest
  | string {t : Token} {rest : List Token} {content : String} :
      t.kind = .string → Unquoted t.text content →
      LiteralToken (t :: rest) (.string content) rest

/-- Rows of what a relation derives: `R*`. -/
inductive Row {α : Type} (R : List Token → α → List Token → Prop) :
    List Token → List α → List Token → Prop
  | nil {ts : List Token} : Row R ts [] ts
  | cons {ts mid rest : List Token} {a : α} {as : List α} :
      R ts a mid → Row R mid as rest → Row R ts (a :: as) rest

/-- Rows with commas in between: `R (',' R)*`. -/
inductive Separated {α : Type} (R : List Token → α → List Token → Prop) :
    List Token → List α → List Token → Prop
  | last {ts rest : List Token} {a : α} : R ts a rest → Separated R ts [a] rest
  | cons {ts₀ ts₁ ts₂ rest : List Token} {a : α} {as : List α} :
      R ts₀ a ts₁ → Terminal "," ts₁ ts₂ → Separated R ts₂ as rest →
      Separated R ts₀ (a :: as) rest

section Names

variable (allowed : String → Prop)

/-- A name. -/
inductive Identifier : List Token → String → List Token → Prop
  | intro {t : Token} {rest : List Token} :
      t.kind = .identifier → allowed t.text → Identifier (t :: rest) t.text rest

/-- A colon and the name of a type, or nothing. -/
inductive OptionalType : List Token → Option String → List Token → Prop
  | none {ts : List Token} : OptionalType ts none ts
  | some {ts₀ ts₁ rest : List Token} {x : String} :
      Terminal ":" ts₀ ts₁ → Identifier allowed ts₁ x rest →
      OptionalType ts₀ (some x) rest

mutual

/-- An expression whose operators are those of some layers. -/
inductive Layered : List (List String) → List Token → Node → List Token → Prop
  | operand {ts rest : List Token} {e : Node} : Primary ts e rest → Layered [] ts e rest
  | layer {operators : List String} {inner : List (List String)} {ts mid rest : List Token}
      {left e : Node} :
      Layered inner ts left mid → Operations operators inner left mid e rest →
      Layered (operators :: inner) ts e rest

/-- Operators of one layer with their right operands.  Each takes all that stands on its
left as its left operand. -/
inductive Operations :
    List String → List (List String) → Node → List Token → Node → List Token → Prop
  | done {operators : List String} {inner : List (List String)} {left : Node}
      {ts : List Token} : Operations operators inner left ts left ts
  | more {operators : List String} {inner : List (List String)} {left right e : Node}
      {operator : String} {ts₀ ts₁ ts₂ rest : List Token} :
      operator ∈ operators → Terminal operator ts₀ ts₁ → Layered inner ts₁ right ts₂ →
      Operations operators inner (.binary operator left right) ts₂ e rest →
      Operations operators inner left ts₀ e rest

/-- An operand. -/
inductive Primary : List Token → Node → List Token → Prop
  | nil {ts rest : List Token} : Terminal "NIL" ts rest → Primary ts (.literal .nil) rest
  | true {ts rest : List Token} :
      Terminal "TRUE" ts rest → Primary ts (.literal (.boolean true)) rest
  | false {ts rest : List Token} :
      Terminal "FALSE" ts rest → Primary ts (.literal (.boolean false)) rest
  | literal {ts rest : List Token} {s : Scalar} :
      LiteralToken ts s rest → Primary ts (.literal s) rest
  | variable {ts rest : List Token} {x : String} :
      Identifier allowed ts x rest → Primary ts (.access x .absent) rest
  | item {ts₀ ts₁ ts₂ ts₃ rest : List Token} {x : String} {offset : Node} :
      Identifier allowed ts₀ x ts₁ → Terminal "[" ts₁ ts₂ →
      Layered precedence ts₂ offset ts₃ → Terminal "]" ts₃ rest →
      Primary ts₀ (.access x offset) rest
  | plainCall {ts₀ ts₁ ts₂ rest : List Token} {x : String} :
      Identifier allowed ts₀ x ts₁ → Terminal "(" ts₁ ts₂ → Terminal ")" ts₂ rest →
      Primary ts₀ (.call x []) rest
  | call {ts₀ ts₁ ts₂ ts₃ rest : List Token} {x : String} {arguments : List Node} :
      Identifier allowed ts₀ x ts₁ → Terminal "(" ts₁ ts₂ → Expressions ts₂ arguments ts₃ →
      Terminal ")" ts₃ rest → Primary ts₀ (.call x arguments) rest
  | list {ts₀ ts₁ ts₂ rest : List Token} {elements : List Node} :
      Terminal "[" ts₀ ts₁ → Expressions ts₁ elements ts₂ → Terminal "]" ts₂ rest →
      Primary ts₀ (.list elements) rest
  | group {ts₀ ts₁ ts₂ rest : List Token} {e : Node} :
      Terminal "(" ts₀ ts₁ → Layered precedence ts₁ e ts₂ → Terminal ")" ts₂ rest →
      Primary ts₀ (.group e) rest

/-- Expressions with commas in between. -/
inductive Expressions : List Token → List Node → List Token → Prop
  | last {ts rest : List Token} {e : Node} :
      Layered precedence ts e rest → Expressions ts [e] rest
  | cons {ts₀ ts₁ ts₂ rest : List Token} {e : Node} {es : List Node} :
      Layered precedence ts₀ e ts₁ → Terminal "," ts₁ ts₂ → Expressions ts₂ es rest →
      Expressions ts₀ (e :: es) rest

end

/-- An expression. -/
abbrev Expression : List Token → Node → List Token → Prop := Layered allowed precedence

/-- An equals sign and a value, or nothing. -/
inductive OptionalValue : List Token → Node → List Token → Prop
  | none {ts : List Token} : OptionalValue ts .absent ts
  | some {ts₀ ts₁ rest : List Token} {e : Node} :
      Terminal "=" ts₀ ts₁ → Expression allowed ts₁ e rest → OptionalValue ts₀ e rest

mutual

/-- The statements of a block. -/
inductive Block : List Token → List Node → List Token → Prop
  | nil {ts : List Token} : Block ts [] ts
  | cons {ts mid rest : List Token} {s : Node} {ss : List Node} :
      Statement ts s mid → Block mid ss rest → Block ts (s :: ss) rest

/-- A statement. -/
inductive Statement : List Token → Node → List Token → Prop
  | declaration {ts₀ ts₁ ts₂ ts₃ ts₄ rest : List Token} {x : String} {type : Option String}
      {value : Node} :
      Terminal "LET" ts₀ ts₁ → Identifier allowed ts₁ x ts₂ →
      OptionalType allowed ts₂ type ts₃ → OptionalValue allowed ts₃ value ts₄ →
      Terminal ";" ts₄ rest → Statement ts₀ (.declaration x (.ofText? type) value) rest
  | switch {ts₀ ts₁ ts₂ ts₃ ts₄ rest : List Token} {condition first last : Node}
      {others : List Node} :
      Terminal "SWITCH" ts₀ ts₁ → Expression allowed ts₁ condition ts₂ →
      Arms ts₂ (first :: others) ts₃ → DefaultArm ts₃ last ts₄ → Terminal "END" ts₄ rest →
      Statement ts₀ (.switch condition (first :: others ++ [last])) rest
  | conditional {ts₀ ts₁ ts₂ ts₃ ts₄ rest : List Token} {condition : Node}
      {thenBody : List Node} :
      Terminal "IF" ts₀ ts₁ → Expression allowed ts₁ condition ts₂ → Terminal "DO" ts₂ ts₃ →
      Block ts₃ thenBody ts₄ → Terminal "END" ts₄ rest →
      Statement ts₀ (.conditional condition thenBody []) rest
  | alternative {ts₀ ts₁ ts₂ ts₃ ts₄ ts₅ ts₆ rest : List Token} {condition : Node}
      {thenBody elseBody : List Node} :
      Terminal "IF" ts₀ ts₁ → Expression allowed ts₁ condition ts₂ → Terminal "DO" ts₂ ts₃ →
      Block ts₃ thenBody ts₄ → Terminal "ELSE" ts₄ ts₅ → Block ts₅ elseBody ts₆ →
      Terminal "END" ts₆ rest →
      Statement ts₀ (.conditional condition thenBody elseBody) rest
  | loop {ts₀ ts₁ ts₂ ts₃ ts₄ rest : List Token} {condition : Node} {body : List Node} :
      Terminal "WHILE" ts₀ ts₁ → Expression allowed ts₁ condition ts₂ →
      Terminal "DO" ts₂ ts₃ → Block ts₃ body ts₄ → Terminal "END" ts₄ rest →
      Statement ts₀ (.loop condition body) rest
  | plainReturn {ts₀ ts₁ rest : List Token} :
      Terminal "RETURN" ts₀ ts₁ → Terminal ";" ts₁ rest →
      Statement ts₀ (.returning .absent) rest
  | returning {ts₀ ts₁ ts₂ rest : List Token} {value : Node} :
      Terminal "RETURN" ts₀ ts₁ → Expression allowed ts₁ value ts₂ → Terminal ";" ts₂ rest →
      Statement ts₀ (.returning value) rest
  | evaluation {ts₀ ts₁ rest : List Token} {e : Node} :
      Expression allowed ts₀ e ts₁ → Terminal ";" ts₁ rest →
      Statement ts₀ (.evaluation e) rest
  | assignment {ts₀ ts₁ ts₂ ts₃ rest : List Token} {x : Name} {offset value : Node} :
      Expression allowed ts₀ (.access x offset) ts₁ → Terminal "=" ts₁ ts₂ →
      Expression allowed ts₂ value ts₃ → Terminal ";" ts₃ rest →
      Statement ts₀ (.assignment (.access x offset) value) rest

/-- Cases that have a value. -/
inductive Arms : List Token → List Node → List Token → Prop
  | nil {ts : List Token} : Arms ts [] ts
  | cons {ts₀ ts₁ ts₂ ts₃ ts₄ rest : List Token} {value : Node} {body arms : List Node} :
      Terminal "CASE" ts₀ ts₁ → Expression allowed ts₁ value ts₂ → Terminal ":" ts₂ ts₃ →
      Block ts₃ body ts₄ → Arms ts₄ arms rest → Arms ts₀ (.arm value body :: arms) rest

/-- The default case. -/
inductive DefaultArm : List Token → Node → List Token → Prop
  | plain {ts₀ ts₁ rest : List Token} {body : List Node} :
      Terminal "DEFAULT" ts₀ ts₁ → Block ts₁ body rest →
      DefaultArm ts₀ (.arm .absent body) rest
  | colon {ts₀ ts₁ ts₂ rest : List Token} {body : List Node} :
      Terminal "DEFAULT" ts₀ ts₁ → Terminal ":" ts₁ ts₂ → Block ts₂ body rest →
      DefaultArm ts₀ (.arm .absent body) rest

end

/-- The declaration of a global. -/
inductive Global : List Token → Node → List Token → Prop
  | list {ts₀ ts₁ ts₂ ts₃ ts₄ ts₅ ts₆ ts₇ rest : List Token} {x : String}
      {type : Option String} {elements : List Node} :
      Terminal "LIST" ts₀ ts₁ → Identifier allowed ts₁ x ts₂ →
      OptionalType allowed ts₂ type ts₃ → Terminal "=" ts₃ ts₄ → Terminal "[" ts₄ ts₅ →
      Expressions allowed ts₅ elements ts₆ → Terminal "]" ts₆ ts₇ → Terminal ";" ts₇ rest →
      Global ts₀ (.global x (.ofText? type) true (.list elements)) rest
  | changeable {ts₀ ts₁ ts₂ ts₃ ts₄ rest : List Token} {keyword x : String}
      {type : Option String} {value : Node} :
      keyword = "VAR" ∨ keyword = "LET" → Terminal keyword ts₀ ts₁ →
      Identifier allowed ts₁ x ts₂ → OptionalType allowed ts₂ type ts₃ →
      OptionalValue allowed ts₃ value ts₄ → Terminal ";" ts₄ rest →
      Global ts₀ (.global x (.ofText? type) true value) rest
  | fixed {ts₀ ts₁ ts₂ ts₃ ts₄ ts₅ rest : List Token} {x : String} {type : Option String}
      {value : Node} :
      Terminal "VAL" ts₀ ts₁ → Identifier allowed ts₁ x ts₂ →
      OptionalType allowed ts₂ type ts₃ → Terminal "=" ts₃ ts₄ →
      Expression allowed ts₄ value ts₅ → Terminal ";" ts₅ rest →
      Global ts₀ (.global x (.ofText? type) false value) rest

/-- A parameter with its optional type. -/
inductive Parameter : List Token → String × Option String → List Token → Prop
  | intro {ts₀ ts₁ rest : List Token} {x : String} {type : Option String} :
      Identifier allowed ts₀ x ts₁ → OptionalType allowed ts₁ type rest →
      Parameter ts₀ (x, type) rest

/-- The parameters of a function. -/
inductive OptionalParameters :
    List Token → List (String × Option String) → List Token → Prop
  | none {ts : List Token} : OptionalParameters ts [] ts
  | some {ts rest : List Token} {ps : List (String × Option String)} :
      Separated (Parameter allowed) ts ps rest → OptionalParameters ts ps rest

/-- The declaration of a function. -/
inductive Function : List Token → Node → List Token → Prop
  | intro {ts₀ ts₁ ts₂ ts₃ ts₄ ts₅ ts₆ ts₇ ts₈ rest : List Token} {x : String}
      {ps : List (String × Option String)} {type : Option String} {body : List Node} :
      Terminal "FUN" ts₀ ts₁ → Identifier allowed ts₁ x ts₂ → Terminal "(" ts₂ ts₃ →
      OptionalParameters allowed ts₃ ps ts₄ → Terminal ")" ts₄ ts₅ →
      OptionalType allowed ts₅ type ts₆ → Terminal "DO" ts₆ ts₇ →
      Block allowed ts₇ body ts₈ → Terminal "END" ts₈ rest →
      Function ts₀
        (.function x (ps.map fun p => Name.ofText p.1) (ps.map fun p => Name.ofText? p.2)
          (.ofText? type) body) rest

/-- A whole program: the tokens derive from `source`, and none is left. -/
inductive Source : List Token → Node → Prop
  | intro {ts mid : List Token} {globals functions : List Node} :
      Row (Global allowed) ts globals mid → Row (Function allowed) mid functions [] →
      Source ts (.source globals functions)

end Names

end Derivation

/-- The tokens derive from the grammar, with names that are no keywords, and the tree is
that of the derivation. -/
abbrev Derives (tokens : List Token) (tree : Node) : Prop :=
  Derivation.Source IsFree tokens tree

end Grammar
end BlockScript
