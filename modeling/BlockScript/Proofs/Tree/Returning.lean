import BlockScript.Tree.Basic

/-!
# Statements that surely return

Some statements never complete: a `RETURN`, a choice each of whose branches has a
statement that surely returns, and a loop without end around one.  What follows such a
statement in the same body is dead.

Two trees are alike when they differ in dead statements only.
-/

namespace BlockScript
namespace Node

section Definitions

mutual

/-- Whether a statement surely returns: a `RETURN`, an `IF` both of whose branches have a
statement that does, a `SWITCH` with a default case at its end all of whose cases have one,
and a `WHILE TRUE` whose body has one. -/
def surelyReturns : Node → Bool
  | returning _ => true
  | conditional _ thenBody elseBody => anySurelyReturns thenBody && anySurelyReturns elseBody
  | switch _ arms => armsSurelyReturn arms
  | loop (literal (.boolean true)) body => anySurelyReturns body
  | _ => false

/-- Whether some statement of a body surely returns. -/
def anySurelyReturns : List Node → Bool
  | [] => false
  | node :: nodes => surelyReturns node || anySurelyReturns nodes

/-- Whether each of some cases has a statement that surely returns, and the last has no
value. -/
def armsSurelyReturn : List Node → Bool
  | [] => false
  | [arm value body] => value.isAbsent && anySurelyReturns body
  | arm _ body :: arms => anySurelyReturns body && armsSurelyReturn arms
  | _ => false

end

theorem of_surelyReturns_loop {condition : Node} {body : List Node}
    (h : (loop condition body).surelyReturns = true) :
    condition = literal (.boolean true) ∧ anySurelyReturns body = true := by
  unfold surelyReturns at h
  split at h
  all_goals first | contradiction | skip
  rename_i hnode
  cases hnode
  exact ⟨rfl, h⟩

/-- Cases that surely return begin with one that has a statement which does; it is the last
one and has no value, or the others surely return as well. -/
theorem of_armsSurelyReturn {first : Node} {arms : List Node}
    (h : armsSurelyReturn (first :: arms) = true) :
    ∃ value body, first = arm value body ∧ anySurelyReturns body = true ∧
      (arms = [] ∧ value.isAbsent = true ∨ armsSurelyReturn arms = true) := by
  unfold armsSurelyReturn at h
  split at h
  · contradiction
  · rename_i value body harms
    cases harms
    rw [Bool.and_eq_true] at h
    exact ⟨value, body, rfl, h.2, Or.inl ⟨rfl, h.1⟩⟩
  · rename_i value body _ _ harms
    cases harms
    rw [Bool.and_eq_true] at h
    exact ⟨value, body, rfl, h.1, Or.inr h.2⟩
  · contradiction

mutual

/-- Two trees differ at most in what follows statements that surely return, in the bodies
that they hold. -/
inductive Alike : Node → Node → Prop
  | absent : Alike absent absent
  | source {globals globals' functions functions' : List Node} :
      AlikeRow globals globals' → AlikeRow functions functions' →
      Alike (source globals functions) (source globals' functions')
  | «global» {value value' : Node} (name typeName : Name) (isMutable : Bool) :
      Alike value value' →
      Alike (global name typeName isMutable value) (global name typeName isMutable value')
  | function {body body' : List Node} (name : Name) (parameters parameterTypes : List Name)
      (returnType : Name) : AlikeBody body body' →
      Alike (function name parameters parameterTypes returnType body)
        (function name parameters parameterTypes returnType body')
  | evaluation {expression expression' : Node} : Alike expression expression' →
      Alike (evaluation expression) (evaluation expression')
  | declaration {value value' : Node} (name typeName : Name) : Alike value value' →
      Alike (declaration name typeName value) (declaration name typeName value')
  | assignment {target target' value value' : Node} : Alike target target' →
      Alike value value' → Alike (assignment target value) (assignment target' value')
  | conditional {condition condition' : Node} {thenBody thenBody' elseBody elseBody' : List Node} :
      Alike condition condition' → AlikeBody thenBody thenBody' →
      AlikeBody elseBody elseBody' →
      Alike (conditional condition thenBody elseBody) (conditional condition' thenBody' elseBody')
  | arm {value value' : Node} {body body' : List Node} : Alike value value' →
      AlikeBody body body' → Alike (arm value body) (arm value' body')
  | «switch» {condition condition' : Node} {arms arms' : List Node} : Alike condition condition' →
      AlikeRow arms arms' → Alike (switch condition arms) (switch condition' arms')
  | loop {condition condition' : Node} {body body' : List Node} : Alike condition condition' →
      AlikeBody body body' → Alike (loop condition body) (loop condition' body')
  | returning {value value' : Node} : Alike value value' →
      Alike (returning value) (returning value')
  | literal (value : Scalar) : Alike (literal value) (literal value)
  | group {expression expression' : Node} : Alike expression expression' →
      Alike (group expression) (group expression')
  | binary {left left' right right' : Node} (operator : Name) : Alike left left' →
      Alike right right' → Alike (binary operator left right) (binary operator left' right')
  | access {offset offset' : Node} (name : Name) : Alike offset offset' →
      Alike (access name offset) (access name offset')
  | call {arguments arguments' : List Node} (name : Name) : AlikeRow arguments arguments' →
      Alike (call name arguments) (call name arguments')
  | list {elements elements' : List Node} : AlikeRow elements elements' →
      Alike (list elements) (list elements')

/-- Two rows are alike node by node. -/
inductive AlikeRow : List Node → List Node → Prop
  | nil : AlikeRow [] []
  | cons {node node' : Node} {nodes nodes' : List Node} : Alike node node' →
      AlikeRow nodes nodes' → AlikeRow (node :: nodes) (node' :: nodes')

/-- Two bodies are alike statement by statement, up to one that surely returns if there is
one.  What follows it may be anything. -/
inductive AlikeBody : List Node → List Node → Prop
  | nil : AlikeBody [] []
  | cons {node node' : Node} {nodes nodes' : List Node} : Alike node node' →
      AlikeBody nodes nodes' → AlikeBody (node :: nodes) (node' :: nodes')
  | cut {node node' : Node} (dead dead' : List Node) : Alike node node' →
      node.surelyReturns = true → AlikeBody (node :: dead) (node' :: dead')

end

end Definitions

section Reflexivity

mutual

/-- Every tree is like itself. -/
theorem Alike.refl : (node : Node) → Alike node node
  | .absent => .absent
  | .source gs fs => .source (AlikeRow.refl gs) (AlikeRow.refl fs)
  | .global n t m v => .global n t m (Alike.refl v)
  | .function n ps ts r b => .function n ps ts r (AlikeBody.refl b)
  | .evaluation e => .evaluation (Alike.refl e)
  | .declaration n t v => .declaration n t (Alike.refl v)
  | .assignment t v => .assignment (Alike.refl t) (Alike.refl v)
  | .conditional c a b => .conditional (Alike.refl c) (AlikeBody.refl a) (AlikeBody.refl b)
  | .arm v b => .arm (Alike.refl v) (AlikeBody.refl b)
  | .switch c as => .switch (Alike.refl c) (AlikeRow.refl as)
  | .loop c b => .loop (Alike.refl c) (AlikeBody.refl b)
  | .returning v => .returning (Alike.refl v)
  | .literal s => .literal s
  | .group e => .group (Alike.refl e)
  | .binary o l r => .binary o (Alike.refl l) (Alike.refl r)
  | .access n o => .access n (Alike.refl o)
  | .call n as => .call n (AlikeRow.refl as)
  | .list es => .list (AlikeRow.refl es)

theorem AlikeRow.refl : (nodes : List Node) → AlikeRow nodes nodes
  | [] => .nil
  | node :: nodes => .cons (Alike.refl node) (AlikeRow.refl nodes)

theorem AlikeBody.refl : (nodes : List Node) → AlikeBody nodes nodes
  | [] => .nil
  | node :: nodes => .cons (Alike.refl node) (AlikeBody.refl nodes)

end

/-- What follows a statement that surely returns can be replaced by anything, wherever the
statement stands in its body. -/
theorem alikeBody_append_cut (before : List Node) {node : Node} (h : node.surelyReturns = true)
    (dead dead' : List Node) :
    AlikeBody (before ++ node :: dead) (before ++ node :: dead') := by
  induction before with
  | nil => exact .cut dead dead' (Alike.refl node) h
  | cons first before ih => exact .cons (Alike.refl first) ih

end Reflexivity

section Heads

variable {node node' : Node}

/-- Trees that are alike are of one kind. -/
theorem Alike.kindName_eq (h : Alike node node') : node.kindName = node'.kindName := by
  cases h <;> rfl

theorem Alike.isAbsent_eq (h : Alike node node') : node.isAbsent = node'.isAbsent := by
  cases h <;> rfl

theorem Alike.name?_eq (h : Alike node node') : node.name? = node'.name? := by
  cases h <;> rfl

/-- Two values of nodes are trees that are alike, or the same. -/
inductive ValuePart.Alike : ValuePart → ValuePart → Prop
  | missing : ValuePart.Alike .missing .missing
  | tree {node node' : Node} : Node.Alike node node' → ValuePart.Alike (.tree node) (.tree node')
  | scalar (value : Scalar) : ValuePart.Alike (.scalar value) (.scalar value)

theorem ValuePart.Alike.refl : (part : ValuePart) → ValuePart.Alike part part
  | .missing => .missing
  | .tree node => .tree (Node.Alike.refl node)
  | .scalar value => .scalar value

theorem Alike.valuePart (h : Alike node node') :
    ValuePart.Alike node.valuePart node'.valuePart := by
  cases h with
  | «global» _ _ _ h | declaration _ _ h | assignment _ h | arm h | returning h => exact .tree h
  | literal value => exact .refl _
  | _ => exact .missing

end Heads

end Node
end BlockScript
