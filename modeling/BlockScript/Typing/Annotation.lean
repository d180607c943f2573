import BlockScript.Scope.Basic

/-!
# Annotations

What checking finds out about the nodes of a tree: the types of expressions, and the
variables and functions that names stand for.  The annotations of a tree come in the
order of its nodes, a node before its parts.
-/

namespace BlockScript

/-- What is known of a node. -/
inductive Finding
  /-- The type of an expression that is neither an access nor a call. -/
  | expression (type : Option StaticType)
  /-- The variable that is accessed. -/
  | access (target : Variable)
  /-- The function that is called. -/
  | call (callee : Function)
  /-- The variable that is declared. -/
  | declaration (declared : Variable)
  /-- The function that is declared. -/
  | function (declared : Function)
deriving Inhabited

namespace Finding

/-- The type of an expression: that of the variable accessed or of what a call returns. -/
def type? : Finding → Option (Option StaticType)
  | expression type => some type
  | access target => some target.type
  | call callee => some (some callee.returnType)
  | _ => none

/-- The variable of an access or a declaration. -/
def boundVariable? : Finding → Option Variable
  | access target => some target
  | declaration declared => some declared
  | _ => none

/-- The function of a call or a declaration. -/
def boundFunction? : Finding → Option Function
  | call callee => some callee
  | function declared => some declared
  | _ => none

end Finding

/-- A node and what is known of it. -/
structure Annotation where
  node : Node
  finding : Finding
deriving Inhabited

end BlockScript
