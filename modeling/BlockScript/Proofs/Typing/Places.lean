import BlockScript.Proofs.Scope.Names
import BlockScript.Proofs.Tree.Order
import BlockScript.Proofs.Typing.Declarations

/-!
# Places of records

A check leaves one record for each node of which something is known, in the order of the tree.
So a node has a place among the records: the number of recorded nodes in front of it.  The
records of a tree stand in one piece at the place of the tree, and those of its parts follow
each other.
-/

namespace BlockScript

/-- Some records stand in one piece at a place. -/
def RecordedAt (annotations : List Annotation) (place : Nat) (a : List Annotation) : Prop :=
  a <+: annotations.drop place

namespace RecordedAt

variable {annotations a b : List Annotation} {place : Nat} {record : Annotation}

theorem all (annotations : List Annotation) : RecordedAt annotations 0 annotations :=
  List.prefix_refl _

theorem left (h : RecordedAt annotations place (a ++ b)) : RecordedAt annotations place a :=
  (List.prefix_append a b).trans h

theorem right (h : RecordedAt annotations place (a ++ b)) {nodes : List Node}
    (ha : a.map Annotation.node = nodes) : RecordedAt annotations (place + nodes.length) b := by
  obtain ⟨rest, hrest⟩ := h
  refine ⟨rest, ?_⟩
  rw [← ha, List.length_map, ← List.drop_drop, ← hrest, List.append_assoc, List.drop_left]

theorem head (h : RecordedAt annotations place (record :: a)) :
    annotations[place]? = some record := by
  obtain ⟨rest, hrest⟩ := h
  rw [← List.head?_drop, ← hrest]
  rfl

theorem tail (h : RecordedAt annotations place (record :: a)) :
    RecordedAt annotations (place + 1) a := by
  obtain ⟨rest, hrest⟩ := h
  refine ⟨rest, ?_⟩
  rw [← List.drop_drop, ← hrest]
  rfl

/-- Behind the record of a node and those of some of its parts come those of the other parts. -/
theorem past {node : Node} {finding : Finding}
    (h : RecordedAt annotations place (⟨node, finding⟩ :: (a ++ b))) {nodes : List Node}
    (ha : a.map Annotation.node = nodes) :
    RecordedAt annotations (place + (node :: nodes).length) b :=
  h.right (a := ⟨node, finding⟩ :: a) (congrArg (List.cons node) ha)

end RecordedAt

namespace Typing

open BlockScript.Computation CheckState

section Expressions

theorem length_of_lookupFunction {scopes : Chain} {name : Name} {arity : Nat} {f : Function}
    (h : scopes.lookupFunction name arity = .ok f) : f.parameterTypes.length = arity := by
  unfold Chain.lookupFunction at h
  split at h
  · rename_i found hfound
    cases h
    obtain ⟨s, _, hs⟩ := List.exists_of_findSome?_eq_some hfound
    exact (of_findFunction? hs).2.2
  · cases h

mutual

/-- The records of an expression are those of its nodes. -/
theorem nodes_of_typeOf : ∀ {e : Node} {scopes : Chain} {expected : Option StaticType}
    {found : Typed}, typeOf scopes expected e = .ok found →
    found.annotations.map Annotation.node = e.recorded
  | .literal _, _, _, _, h => by
      obtain ⟨type, _, rfl⟩ := typeOf_literal h
      rfl
  | .group inner, _, _, _, h => by
      obtain ⟨part, hpart, rfl⟩ := typeOf_group h
      rw [List.map_cons, nodes_of_typeOf hpart, Node.recorded_group]
  | .binary _ left right, _, _, _, h => by
      obtain ⟨l, r, type, hl, hr, _, rfl⟩ := typeOf_binary h
      rw [List.map_cons, List.map_append, nodes_of_typeOf hl, nodes_of_typeOf hr,
        Node.recorded_binary]
  | .access name offset, _, _, _, h => by
      obtain ⟨others, v, hothers, _, _, rfl⟩ := typeOf_access h
      rw [List.map_cons, nodes_of_typeOfOffset hothers, Node.recorded_access]
  | .call name arguments, _, _, _, h => by
      obtain ⟨f, others, _, hf, hothers, rfl⟩ := typeOf_call h
      rw [List.map_cons, nodes_of_typeOfArguments hothers (length_of_lookupFunction hf).symm,
        Node.recorded_call]
  | .list elements, _, _, _, h => by
      obtain ⟨part, hpart, rfl⟩ := typeOf_list h
      rw [List.map_cons, nodes_of_typeOfElements hpart, Node.recorded_list]
  | .absent, _, _, _, h | .source _ _, _, _, _, h | .global _ _ _ _, _, _, _, h
  | .function _ _ _ _ _, _, _, _, h | .evaluation _, _, _, _, h | .declaration _ _ _, _, _, _, h
  | .assignment _ _, _, _, _, h | .conditional _ _ _, _, _, _, h | .arm _ _, _, _, _, h
  | .switch _ _, _, _, _, h | .loop _ _, _, _, _, h | .returning _, _, _, _, h => by
      unfold typeOf at h
      cases h

theorem nodes_of_typeOfOffset : ∀ {offset : Node} {scopes : Chain} {name : Name}
    {others : List Annotation}, typeOfOffset scopes name offset = .ok others →
    others.map Annotation.node = offset.recorded
  | offset, _, _, _, h => by
      rcases typeOf_offset h with ⟨habsent, rfl⟩ | ⟨part, hpart, rfl⟩
      · cases offset with
        | absent => rfl
        | _ => cases habsent
      · exact nodes_of_typeOf hpart

theorem nodes_of_typeOfArguments : ∀ {arguments : List Node} {scopes : Chain} {function : String}
    {types : List StaticType} {others : List Annotation},
    typeOfArguments scopes function arguments types = .ok others →
    arguments.length = types.length → others.map Annotation.node = Node.recordedOf arguments
  | [], _, _, types, _, h, _ => by
      unfold typeOfArguments at h
      cases h
      rfl
  | argument :: arguments, _, _, [], _, _, hlength => by cases hlength
  | argument :: arguments, _, _, type :: types, _, h, hlength => by
      obtain ⟨part, rest, hpart, _, hrest, rfl⟩ := typeOf_arguments h
      rw [List.map_append, nodes_of_typeOf hpart,
        nodes_of_typeOfArguments hrest (Nat.succ.inj hlength), Node.recordedOf_cons]

theorem nodes_of_typeOfElements : ∀ {elements : List Node} {scopes : Chain}
    {listType : Option StaticType} {found : Typed},
    typeOfElements scopes listType elements = .ok found →
    found.annotations.map Annotation.node = Node.recordedOf elements
  | [], _, _, _, h => by
      unfold typeOfElements at h
      cases h
      rfl
  | element :: elements, _, _, _, h => by
      obtain ⟨part, type, rest, hpart, hrest, rfl⟩ := typeOf_elements h
      rw [List.map_append, nodes_of_typeOf hpart, nodes_of_typeOfElements hrest,
        Node.recordedOf_cons]

end

end Expressions

section Statements

variable {c c' : CheckState} {a : List Annotation}

theorem DeclaredAs.nodes {scopes : Chain} {typeName : Name} {value : Node} {found : Typed}
    (h : DeclaredAs scopes typeName value found) :
    found.annotations.map Annotation.node = value.recorded := by
  cases h with
  | inferred _ hfound => exact nodes_of_typeOf hfound
  | bare _ habsent =>
      cases value with
      | absent => rfl
      | _ => cases habsent
  | given _ _ hfound _ =>
      have hnodes := nodes_of_typeOf hfound
      exact hnodes

theorem ArmValue.nodes {scopes : Chain} {type : Option StaticType} {isLast : Bool} {value : Node}
    (h : ArmValue scopes type isLast value a) : a.map Annotation.node = value.recorded := by
  cases h with
  | last => rfl
  | literal _ hfound _ => exact nodes_of_typeOf hfound

/-- A case that is checked as a statement has the records of its value in front of its body's. -/
theorem arm_split {value : Node} {body : List Node}
    (h : check (.arm value body) c = (.ok a, c')) :
    ∃ others inBody, others.map Annotation.node = value.recorded ∧
      inScope (checkAll body) c = (.ok inBody, c') ∧ a = others ++ inBody := by
  obtain ⟨others, c₁, hvalue, h⟩ := bind_eq_ok.mp h
  obtain ⟨inBody, c₂, hbody, h⟩ := bind_eq_ok.mp h
  cases h
  unfold optionalExpression at hvalue
  split at hvalue
  · rename_i habsent
    cases hvalue
    cases value with
    | absent => exact ⟨[], inBody, rfl, hbody, rfl⟩
    | _ => cases habsent
  · obtain ⟨found, hfound, hvalue⟩ := typeHere_bind_eq_ok hvalue
    cases hvalue
    exact ⟨found.annotations, inBody, nodes_of_typeOf hfound, hbody, rfl⟩

mutual

/-- The records of a statement or a declaration are those of its nodes. -/
theorem nodes_of_check : ∀ {node : Node} {c c' : CheckState} {a : List Annotation},
    check node c = (.ok a, c') → a.map Annotation.node = node.recorded
  | .global _ _ _ value, _, _, _, h => by
      obtain ⟨found, hfound, _, _, rfl⟩ := global_eq_ok h
      rw [List.map_cons, hfound.nodes, Node.recorded_global]
  | .function _ _ _ _ body, _, _, _, h => by
      obtain ⟨f, entry, inBody, c₁, _, hbody, _, rfl⟩ := function_eq_ok h
      rw [List.map_cons, nodes_of_checkAll hbody, Node.recorded_function]
  | .evaluation _, _, _, _, h => by
      obtain ⟨_, found, hfound, rfl⟩ := evaluation_eq_ok h
      rw [nodes_of_typeOf hfound, Node.recorded_evaluation]
  | .declaration _ _ value, _, _, _, h => by
      obtain ⟨found, hfound, _, _, rfl⟩ := declare_eq_ok h
      rw [List.map_cons, hfound.nodes, Node.recorded_declaration]
  | .assignment target value, _, _, _, h => by
      obtain ⟨_, name, offset, v, place, found, rfl, hplace, _, _, hfound, _, rfl⟩ :=
        assignment_eq_ok h
      rw [List.map_append, nodes_of_typeOf hplace, nodes_of_typeOf hfound,
        Node.recorded_assignment]
  | .conditional _ thenBody elseBody, _, _, _, h => by
      obtain ⟨found, c₁, inThen, inElse, hfound, _, hthen, helse, rfl⟩ := conditional_eq_ok h
      obtain ⟨_, hthen, _⟩ := inScope_eq_ok hthen
      obtain ⟨_, helse, _⟩ := inScope_eq_ok helse
      rw [List.map_append, List.map_append, nodes_of_typeOf hfound, nodes_of_checkAll hthen,
        nodes_of_checkAll helse, Node.recorded_conditional]
  | .loop _ body, _, _, _, h => by
      obtain ⟨found, inBody, hfound, _, hbody, rfl⟩ := loop_eq_ok h
      obtain ⟨_, hbody, _⟩ := inScope_eq_ok hbody
      rw [List.map_append, nodes_of_typeOf hfound, nodes_of_checkAll hbody, Node.recorded_loop]
  | .switch _ arms, _, _, _, h => by
      obtain ⟨found, inArms, hfound, harms, rfl⟩ := switch_eq_ok h
      rw [List.map_append, nodes_of_typeOf hfound, nodes_of_checkArms harms, Node.recorded_switch]
  | .arm _ body, _, _, _, h => by
      obtain ⟨others, inBody, hothers, hbody, rfl⟩ := arm_split h
      obtain ⟨_, hbody, _⟩ := inScope_eq_ok hbody
      rw [List.map_append, hothers, nodes_of_checkAll hbody, Node.recorded_arm]
  | .returning value, _, _, _, h => by
      obtain ⟨_, f, _, ⟨habsent, _, rfl⟩ | ⟨_, found, hfound, _, rfl⟩⟩ := returning_eq_ok h
      · cases value with
        | absent => rfl
        | _ => cases habsent
      · rw [nodes_of_typeOf hfound, Node.recorded_returning]
  | .absent, _, _, _, h | .source _ _, _, _, _, h | .literal _, _, _, _, h
  | .group _, _, _, _, h | .binary _ _ _, _, _, _, h | .access _ _, _, _, _, h
  | .call _ _, _, _, _, h | .list _, _, _, _, h => by
      cases h

theorem nodes_of_checkAll : ∀ {nodes : List Node} {c c' : CheckState} {a : List Annotation},
    checkAll nodes c = (.ok a, c') → a.map Annotation.node = Node.recordedOf nodes
  | [], _, _, _, h => by
      cases h
      rfl
  | node :: nodes, _, _, _, h => by
      obtain ⟨found, others, c₁, hnode, hothers, rfl⟩ := checkAll_cons h
      rw [List.map_append, nodes_of_check hnode, nodes_of_checkAll hothers, Node.recordedOf_cons]

theorem nodes_of_checkArms : ∀ {arms : List Node} {type : Option StaticType} {position : Nat}
    {c c' : CheckState} {a : List Annotation}, checkArms type position arms c = (.ok a, c') →
    a.map Annotation.node = Node.recordedOf arms
  | [], _, _, _, _, _, h => by
      cases h
      rfl
  | arm :: arms, _, _, _, _, _, h => by
      obtain ⟨value, body, found, inBody, others, c₁, heq, harm, hbody, hothers, rfl⟩ :=
        checkArms_cons h
      obtain ⟨_, hbody, _⟩ := inScope_eq_ok hbody
      subst heq
      rw [List.map_append, List.map_append, harm.nodes, nodes_of_checkAll hbody,
        nodes_of_checkArms hothers, Node.recordedOf_cons, Node.recorded_arm]

end

theorem checkFunctions_append {before behind : List Node} {hasMain : Bool}
    (h : checkFunctions (before ++ behind) c = (.ok (hasMain, a), c')) :
    ∃ hasMain₁ hasMain₂ a₁ a₂ c₁, checkFunctions before c = (.ok (hasMain₁, a₁), c₁) ∧
      checkFunctions behind c₁ = (.ok (hasMain₂, a₂), c') ∧ a = a₁ ++ a₂ := by
  induction before generalizing c a hasMain with
  | nil => exact ⟨false, hasMain, [], a, c, rfl, h, rfl⟩
  | cons first before ih =>
      obtain ⟨isMain, found, _, others, c₁, hmain, hfirst, hothers, _, rfl⟩ :=
        checkFunctions_cons h
      obtain ⟨hasMain₁, hasMain₂, a₁, a₂, c₂, hbefore, hbehind, rfl⟩ := ih hothers
      refine ⟨isMain || hasMain₁, hasMain₂, found ++ a₁, a₂, c₂, ?_, hbehind,
        (List.append_assoc _ _ _).symm⟩
      unfold checkFunctions
      rw [hmain]
      exact bind_eq_ok.mpr ⟨isMain, c, rfl, bind_eq_ok.mpr ⟨found, c₁, hfirst,
        bind_eq_ok.mpr ⟨_, c₂, hbefore, rfl⟩⟩⟩

/-- Declarations add to the scopes of a check, and no other statement changes them. -/
theorem check_scopes {node : Node} (hnode : node.Every Node.IsInner)
    (h : check node c = (.ok a, c')) :
    (∃ name typeName value v others, node = .declaration name typeName value ∧ Adds v c c' ∧
      a = ⟨node, .declaration v⟩ :: others) ∨
    (∀ name typeName value, node ≠ .declaration name typeName value) ∧
      c'.scopes = c.scopes := by
  cases node with
  | declaration name typeName value =>
      obtain ⟨found, _, _, hadds, rfl⟩ := declare_eq_ok h
      exact Or.inl ⟨_, _, _, _, _, rfl, hadds, rfl⟩
  | evaluation expression =>
      obtain ⟨rfl, _⟩ := evaluation_eq_ok h
      exact Or.inr ⟨nofun, rfl⟩
  | assignment target value =>
      have hsame : c' = c := (assignment_eq_ok h).1
      exact Or.inr ⟨nofun, congrArg CheckState.scopes hsame⟩
  | conditional test thenBody elseBody =>
      obtain ⟨_, _, _, _, _, _, hthen, helse, _⟩ := conditional_eq_ok h
      exact Or.inr ⟨nofun,
        ((inScope_same hnode.2.2.1 hthen).trans (inScope_same hnode.2.2.2 helse)).scopes⟩
  | loop test body =>
      obtain ⟨_, _, _, _, hbody, _⟩ := loop_eq_ok h
      exact Or.inr ⟨nofun, (inScope_same hnode.2.2 hbody).scopes⟩
  | switch test arms =>
      obtain ⟨_, _, _, harms, _⟩ := switch_eq_ok h
      exact Or.inr ⟨nofun, (checkArms_same hnode.2.2 harms).scopes⟩
  | arm value body =>
      obtain ⟨_, _, hbody, _⟩ := arm_eq_ok h
      exact Or.inr ⟨nofun, (inScope_same hnode.2.2 hbody).scopes⟩
  | returning value =>
      have hsame : c' = c := (returning_eq_ok h).1
      exact Or.inr ⟨nofun, congrArg CheckState.scopes hsame⟩
  | source | «global» | function => exact hnode.1.elim
  | _ =>
      cases h

end Statements

end Typing
end BlockScript
