import BlockScript.Name
import BlockScript.Scalar

/-!
# Syntax trees

One type holds every node of a tree.  Which nodes may stand where is not part of it:
trees also come from files, and there a statement may stand in the place of an
expression or nothing at all, `absent`, in the place of either.  The checker and the
runner report such a place when they reach it.

A tree made from source text is always well shaped.  Its names are texts, and a type that
is not named has the missing name.
-/

namespace BlockScript

/-- A node of a syntax tree. -/
inductive Node
  /-- No node: an optional part that is left out. -/
  | absent
  /-- A whole program: its globals, then its functions. -/
  | source (globals functions : List Node)
  /-- The declaration of a global. -/
  | global (name typeName : Name) (isMutable : Bool) (value : Node)
  /-- The declaration of a function; each parameter may have a type name. -/
  | function (name : Name) (parameters parameterTypes : List Name) (returnType : Name)
      (body : List Node)
  /-- An expression evaluated for its effects. -/
  | evaluation (expression : Node)
  /-- The declaration of a local variable. -/
  | declaration (name typeName : Name) (value : Node)
  /-- An assignment to a variable or to an item of its list. -/
  | assignment (target value : Node)
  /-- A choice between two bodies. -/
  | conditional (condition : Node) (thenBody elseBody : List Node)
  /-- One case of a switch; the default case has no value. -/
  | arm (value : Node) (body : List Node)
  /-- A choice between cases by equality. -/
  | switch (condition : Node) (arms : List Node)
  /-- A body run while a condition holds. -/
  | loop (condition : Node) (body : List Node)
  /-- The end of a call, with or without a value. -/
  | returning (value : Node)
  /-- A literal. -/
  | literal (value : Scalar)
  /-- An expression in parentheses. -/
  | group (expression : Node)
  /-- An operator between two operands. -/
  | binary (operator : Name) (left right : Node)
  /-- A variable, or the item of its list at an offset. -/
  | access (name : Name) (offset : Node)
  /-- A call. -/
  | call (name : Name) (arguments : List Node)
  /-- A list of elements. -/
  | list (elements : List Node)
deriving Inhabited

namespace Node

/-- Whether there is no node. -/
def isAbsent : Node → Bool
  | absent => true
  | _ => false

/-- The name of the kind of a node in tree files and reports. -/
def kindName : Node → String
  | absent => "None"
  | source .. => "Source"
  | global .. => "GlobalDecl"
  | function .. => "FuncDecl"
  | evaluation .. => "ExprStmt"
  | declaration .. => "VarDecl"
  | assignment .. => "Assign"
  | conditional .. => "IfStmt"
  | arm .. => "CaseStmt"
  | switch .. => "SwitchStmt"
  | loop .. => "WhileStmt"
  | returning .. => "ReturnStmt"
  | literal .. => "Literal"
  | group .. => "Group"
  | binary .. => "BinaryOp"
  | access .. => "Access"
  | call .. => "Call"
  | list .. => "ListLit"

/-- Whether a node is an operator between two operands. -/
def isBinary : Node → Bool
  | binary .. => true
  | _ => false

/-- The value of a node: kinds that have none, a tree that may be absent, or the value of a
literal. -/
inductive ValuePart
  | missing
  | tree (node : Node)
  | scalar (value : Scalar)
deriving Inhabited

/-- The value of a node.  A literal of nothing at all has a tree that is absent. -/
def valuePart : Node → ValuePart
  | global _ _ _ value => .tree value
  | declaration _ _ value => .tree value
  | assignment _ value => .tree value
  | arm value _ => .tree value
  | returning value => .tree value
  | literal (.foreign .null _) => .tree absent
  | literal value => .scalar value
  | _ => .missing

/-- The name that a node declares or uses, where its kind has one. -/
def name? : Node → Option Name
  | global name .. => some name
  | function name .. => some name
  | declaration name .. => some name
  | access name .. => some name
  | call name .. => some name
  | _ => none

/-- The conjunction of two answers, the first of which may settle it alone. -/
def both (a b : Option Bool) : Option Bool :=
  match a with
  | some true => b
  | settled => settled

mutual

/-- Whether two trees agree, decimals being compared as numbers.  There is no answer where
a number is met that refuses to be compared. -/
def equal? : Node → Node → Option Bool
  | absent, absent => some true
  | source gs fs, source gs' fs' => both (equalAll? gs gs') (equalAll? fs fs')
  | global n t m v, global n' t' m' v' =>
      both (some (n == n' && t == t' && m == m')) (equal? v v')
  | function n ps ts r b, function n' ps' ts' r' b' =>
      both (some (n == n' && ps == ps' && ts == ts' && r == r')) (equalAll? b b')
  | evaluation e, evaluation e' => equal? e e'
  | declaration n t v, declaration n' t' v' => both (some (n == n' && t == t')) (equal? v v')
  | assignment t v, assignment t' v' => both (equal? t t') (equal? v v')
  | conditional c a b, conditional c' a' b' =>
      both (equal? c c') (both (equalAll? a a') (equalAll? b b'))
  | arm v b, arm v' b' => both (equal? v v') (equalAll? b b')
  | switch c as, switch c' as' => both (equal? c c') (equalAll? as as')
  | loop c b, loop c' b' => both (equal? c c') (equalAll? b b')
  | returning v, returning v' => equal? v v'
  | literal s, literal s' => if s.refuse s' then none else some (s.equal s')
  | group e, group e' => equal? e e'
  | binary o l r, binary o' l' r' =>
      both (some (o == o')) (both (equal? l l') (equal? r r'))
  | access n o, access n' o' => both (some (n == n')) (equal? o o')
  | call n as, call n' as' => both (some (n == n')) (equalAll? as as')
  | list es, list es' => equalAll? es es'
  | _, _ => some false

/-- Whether two rows of trees agree one by one. -/
def equalAll? : List Node → List Node → Option Bool
  | [], [] => some true
  | a :: as, b :: bs => both (equal? a b) (equalAll? as bs)
  | _, _ => some false

end

end Node
end BlockScript
