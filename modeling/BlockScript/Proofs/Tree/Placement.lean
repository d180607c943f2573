import BlockScript.Proofs.Tree.Shape

/-!
# Nodes in their places

The parts of a node are of the kinds that the grammar puts there: expressions where values
are asked for, statements in bodies, cases in a switch, and a variable or an item as the
target of an assignment.  A switch has at least one case with a value and, as its last, the
only one without.

A tree whose nodes are all in their places, with names that are texts and plain literals, is
regular.  The checker and the runner meet no place in it that they were not made for.  What
there may be in a tree besides is said by its contents.
-/

namespace BlockScript

/-- What there may be in a tree: list literals, decimals, and operations on numbers. -/
structure Contents where
  lists : Prop
  decimals : Prop
  arithmetic : Prop

/-- There may be anything. -/
def Contents.any : Contents := ⟨True, True, True⟩

namespace Node

/-- An expression. -/
def IsExpression : Node → Prop
  | literal _ | group _ | binary _ _ _ | access _ _ | call _ _ | list _ => True
  | _ => False

/-- A statement. -/
def IsStatement : Node → Prop
  | evaluation _ | declaration _ _ _ | assignment _ _ | conditional _ _ _ | switch _ _
  | loop _ _ | returning _ => True
  | _ => False

/-- An expression, or nothing. -/
def IsOptional (node : Node) : Prop := node = absent ∨ node.IsExpression

/-- A row of statements. -/
def IsBody (nodes : List Node) : Prop := ∀ node ∈ nodes, node.IsStatement

/-- A case of a switch. -/
def IsArm : Node → Prop
  | arm _ _ => True
  | _ => False

/-- A statement, a case or a declaration. -/
def IsExecuted : Node → Prop
  | global _ _ _ _ | function _ _ _ _ _ | arm _ _ => True
  | node => node.IsStatement

/-- A case with a value. -/
def IsCase : Node → Prop
  | arm value _ => value.IsExpression
  | _ => False

/-- A case without a value. -/
def IsDefault : Node → Prop
  | arm value _ => value = absent
  | _ => False

/-- The cases of a switch: some with values, and behind them one without. -/
def AreCases (arms : List Node) : Prop :=
  ∃ first others last, arms = first :: others ++ [last] ∧ (∀ a ∈ first :: others, a.IsCase) ∧
    last.IsDefault

/-- The binary operators. -/
def operators : List String := ["&&", "||", "<", ">", "==", "!=", "+", "-", "*", "/", "^"]

/-- A scalar that can be written out if it is an integer. -/
def IsWritten (s : Scalar) : Prop := ∀ n, s = .integer n → Text.intText? n ≠ none

/-- The parts of a node are in their places. -/
def IsPlaced : Node → Prop
  | absent => True
  | source globals functions =>
      (∀ g ∈ globals, ∃ name typeName isMutable value, g = global name typeName isMutable value) ∧
        ∀ f ∈ functions, ∃ name parameters parameterTypes returnType body,
          f = function name parameters parameterTypes returnType body
  | global _ _ _ value => value.IsOptional
  | function _ _ _ _ body => IsBody body
  | evaluation expression => expression.IsExpression
  | declaration _ _ value => value.IsOptional
  | assignment target value => (∃ name offset, target = access name offset) ∧ value.IsExpression
  | conditional condition thenBody elseBody =>
      condition.IsExpression ∧ IsBody thenBody ∧ IsBody elseBody
  | arm value body => value.IsOptional ∧ IsBody body
  | switch condition arms => condition.IsExpression ∧ AreCases arms
  | loop condition body => condition.IsExpression ∧ IsBody body
  | returning value => value.IsOptional
  | literal value => IsWritten value
  | group expression => expression.IsExpression
  | binary operator left right =>
      (∃ s ∈ operators, operator = .ofText s) ∧ left.IsExpression ∧ right.IsExpression
  | access _ offset => offset.IsOptional
  | call _ arguments => ∀ a ∈ arguments, a.IsExpression
  | list elements => elements ≠ [] ∧ ∀ e ∈ elements, e.IsExpression

/-- The operators that compute new numbers. -/
def arithmeticOperators : List String := ["+", "-", "*", "/", "^"]

/-- A list literal. -/
def IsList : Node → Prop
  | list _ => True
  | _ => False

/-- A decimal. -/
def IsDecimal : Node → Prop
  | literal (.decimal _) => True
  | _ => False

/-- An operation that computes a new number. -/
def IsArithmetic : Node → Prop
  | binary operator _ _ => operator.text ∈ arithmeticOperators
  | _ => False

/-- What there is in a tree. -/
def contents (tree : Node) : Contents where
  lists := ¬ tree.Every fun node => ¬ node.IsList
  decimals := ¬ tree.Every fun node => ¬ node.IsDecimal
  arithmetic := ¬ tree.Every fun node => ¬ node.IsArithmetic

/-- A node is nothing that there may not be. -/
structure IsWithin (has : Contents) (node : Node) : Prop where
  lists : node.IsList → has.lists
  decimals : node.IsDecimal → has.decimals
  arithmetic : node.IsArithmetic → has.arithmetic

/-- A node is in its place, its names are texts, it is a plain literal if it is one, and it is
none of what there may not be. -/
structure IsRegular (has : Contents) (node : Node) : Prop where
  placed : node.IsPlaced
  formed : node.IsFormed
  plain : ∀ s, node = literal s → s.IsPlain
  within : node.IsWithin has

section Lemmas

theorem isWithin_any {node : Node} : node.IsWithin .any :=
  ⟨fun _ => trivial, fun _ => trivial, fun _ => trivial⟩

theorem Every.not_every_not {tree : Node} {P Q : Node → Prop} (h : tree.Every Q) :
    tree.Every fun node => P node → ¬ tree.Every fun node => ¬ P node := by
  by_cases hnone : tree.Every fun node => ¬ P node
  · exact hnone.map fun _ hnode hP => absurd hP hnode
  · refine h.map ?_
    intro _ _ _
    exact hnone

/-- Every node of a tree is within the contents of the tree. -/
theorem Every.isWithin_contents {tree : Node} {Q : Node → Prop} (h : tree.Every Q) :
    tree.Every (IsWithin tree.contents) := by
  have hlists := h.not_every_not (P := IsList)
  have hdecimals := h.not_every_not (P := IsDecimal)
  have harithmetic := h.not_every_not (P := IsArithmetic)
  exact (hlists.map₂ (fun _ => And.intro) hdecimals).map₂
    (fun _ hnode hnode' => ⟨hnode.1, hnode.2, hnode'⟩) harithmetic

theorem isOptional_absent : IsOptional absent := Or.inl rfl

theorem IsExpression.isOptional {node : Node} (h : node.IsExpression) : node.IsOptional :=
  Or.inr h

theorem IsOptional.isExpression {node : Node} (h : node.IsOptional)
    (hpresent : ¬ node.isAbsent = true) : node.IsExpression := by
  rcases h with rfl | h
  · exact absurd rfl hpresent
  · exact h

theorem IsStatement.isExecuted {node : Node} (h : node.IsStatement) : node.IsExecuted := by
  cases node with
  | «global» | function | arm => trivial
  | _ => exact h

theorem IsArm.exists_eq {node : Node} (h : node.IsArm) : ∃ value body, node = arm value body := by
  cases node with
  | arm value body => exact ⟨value, body, rfl⟩
  | _ => exact h.elim

theorem AreCases.areArms {arms : List Node} (h : AreCases arms) : ∀ a ∈ arms, a.IsArm := by
  obtain ⟨first, others, last, rfl, hcases, hlast⟩ := h
  intro a ha
  rcases List.mem_append.mp ha with ha | ha
  · have hcase := hcases a ha
    cases a with
    | arm => trivial
    | _ => exact hcase.elim
  · obtain rfl := List.mem_singleton.mp ha
    cases a with
    | arm => trivial
    | _ => exact hlast.elim

theorem everyOf_of_forall {P : Node → Prop} {nodes : List Node}
    (h : ∀ node ∈ nodes, node.Every P) : EveryOf P nodes := by
  induction nodes with
  | nil => trivial
  | cons node nodes ih =>
      exact ⟨h node List.mem_cons_self, ih fun n hn => h n (List.mem_cons_of_mem _ hn)⟩

/-- A program has plain literals only. -/
theorem IsProgram.plain {tree : Node} (h : tree.IsProgram) :
    tree.Every fun node => ∀ s, node = literal s → s.IsPlain := by
  have hinner : ∀ node : Node, node.IsInner → ∀ s, node = literal s → s.IsPlain := by
    rintro _ hnode s rfl
    exact hnode
  cases tree with
  | source globals functions =>
      refine ⟨nofun, everyOf_of_forall fun g hg => ?_, everyOf_of_forall fun f hf => ?_⟩
      · have hglobal := h.1 g hg
        cases g with
        | «global» => exact ⟨nofun, hglobal.2.map hinner⟩
        | _ => exact hglobal.elim
      · have hfunction := h.2 f hf
        cases f with
        | function => exact ⟨nofun, hfunction.2.2.map hinner⟩
        | _ => exact hfunction.elim
  | _ => exact h.elim

end Lemmas

end Node
end BlockScript
