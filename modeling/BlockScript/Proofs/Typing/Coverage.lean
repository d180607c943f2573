import BlockScript.Proofs.Tree.Order
import BlockScript.Proofs.Typing.Derivation

/-!
# The records of a derivation cover the tree

Going through a derivation, each expression and each declaration leaves one record, in the
order of the tree.  So none is left out and none comes twice, and the record says what has to
be known of a node of its kind.
-/

namespace BlockScript

/-- What has to be known of a node: the type of an expression, the variable that is used or
declared, and the function that is called or declared. -/
structure Annotation.IsComplete (a : Annotation) : Prop where
  type : a.node.isExpression = true → ∃ t, a.finding.type? = some (some t)
  boundVariable : a.node.bindsVariable = true → ∃ v, a.finding.boundVariable? = some v
  boundFunction : a.node.bindsFunction = true → ∃ f, a.finding.boundFunction? = some f

/-- Each node of a row that has to be recorded has its record, in order. -/
structure Covers (nodes : List Node) (as : List Annotation) : Prop where
  nodes_eq : as.map Annotation.node = nodes.filter Node.isRecorded
  complete : ∀ a ∈ as, a.IsComplete

section Rows

variable {nodes nodes' : List Node} {as bs : List Annotation}

theorem covers_nil : Covers [] [] := ⟨rfl, nofun⟩

theorem Covers.append (h : Covers nodes as) (h' : Covers nodes' bs) :
    Covers (nodes ++ nodes') (as ++ bs) where
  nodes_eq := by rw [List.map_append, List.filter_append, h.nodes_eq, h'.nodes_eq]
  complete a ha := (List.mem_append.mp ha).elim (h.complete a) (h'.complete a)

theorem Covers.cons (h : Covers nodes as) {a : Annotation} (hnode : a.node.isRecorded = true)
    (ha : a.IsComplete) : Covers (a.node :: nodes) (a :: as) where
  nodes_eq := by rw [List.map_cons, List.filter_cons_of_pos hnode, h.nodes_eq]
  complete := List.forall_mem_cons.mpr ⟨ha, h.complete⟩

theorem Covers.behind (h : Covers nodes as) {node : Node} (hnode : node.isRecorded = false) :
    Covers (node :: nodes) as where
  nodes_eq := by rw [List.filter_cons_of_neg (by simp [hnode]), h.nodes_eq]
  complete := h.complete

end Rows

namespace Typing
namespace Derivation

section Expressions

theorem isComplete_of_expression {node : Node} {t : StaticType}
    (hvariable : node.bindsVariable = false) (hfunction : node.bindsFunction = false) :
    Annotation.IsComplete ⟨node, .expression (some t)⟩ where
  type _ := ⟨t, rfl⟩
  boundVariable h := by
    rw [hvariable] at h
    cases h
  boundFunction h := by
    rw [hfunction] at h
    cases h

theorem isComplete_of_access {name : Name} {offset : Node} {v : Variable} {t : StaticType}
    (ht : v.type = some t) : Annotation.IsComplete ⟨.access name offset, .access v⟩ where
  type _ := ⟨t, congrArg some ht⟩
  boundVariable _ := ⟨v, rfl⟩
  boundFunction h := by cases h

theorem isComplete_of_call {name : Name} {arguments : List Node} {f : Function} :
    Annotation.IsComplete ⟨.call name arguments, .call f⟩ where
  type _ := ⟨f.returnType, rfl⟩
  boundVariable h := by cases h
  boundFunction _ := ⟨f, rfl⟩

theorem isComplete_of_declaration {node : Node} {v : Variable}
    (hexpression : node.isExpression = false) (hfunction : node.bindsFunction = false) :
    Annotation.IsComplete ⟨node, .declaration v⟩ where
  type h := by
    rw [hexpression] at h
    cases h
  boundVariable _ := ⟨v, rfl⟩
  boundFunction h := by
    rw [hfunction] at h
    cases h

theorem isComplete_of_function {name returnType : Name} {parameters parameterTypes : List Name}
    {body : List Node} {f : Function} :
    Annotation.IsComplete
      ⟨.function name parameters parameterTypes returnType body, .function f⟩ where
  type h := by cases h
  boundVariable h := by cases h
  boundFunction _ := ⟨f, rfl⟩

variable {c : Chain}

mutual

theorem Expression.covers : ∀ {expected : Option StaticType} {e : Node} {t : StaticType}
    {as : List Annotation}, Expression c expected e t as → Covers e.preorder as
  | _, _, _, _, .literal _ => covers_nil.cons rfl (isComplete_of_expression rfl rfl)
  | _, _, _, _, .group h => h.covers.cons rfl (isComplete_of_expression rfl rfl)
  | _, _, _, _, .binary hl hr _ =>
      (hl.covers.append hr.covers).cons rfl (isComplete_of_expression rfl rfl)
  | _, _, _, _, .variable _ ht => covers_nil.cons rfl (isComplete_of_access ht)
  | _, _, _, _, .item h _ ht => h.covers.cons rfl (isComplete_of_access ht)
  | _, _, _, _, .call _ h => h.covers.cons rfl isComplete_of_call
  | _, _, _, _, .listOf _ h => h.covers.cons rfl (isComplete_of_expression rfl rfl)
  | _, _, _, _, .list h hs =>
      (h.covers.append hs.covers).cons rfl (isComplete_of_expression rfl rfl)

theorem Arguments.covers : ∀ {es : List Node} {ts : List StaticType} {as : List Annotation},
    Arguments c es ts as → Covers (Node.preorderOf es) as
  | _, _, _, .nil => covers_nil
  | _, _, _, .cons h _ hs => h.covers.append hs.covers

theorem Elements.covers : ∀ {t : StaticType} {es : List Node} {as : List Annotation},
    Elements c t es as → Covers (Node.preorderOf es) as
  | _, _, _, .nil => covers_nil
  | _, _, _, .cons h _ hs => h.covers.append hs.covers

end

theorem Declared.covers {typeName : Name} {value : Node} {t : StaticType}
    {as : List Annotation} (h : Declared c typeName value t as) : Covers value.preorder as := by
  cases h with
  | inferred h => exact h.covers
  | bare => exact covers_nil
  | given h _ => exact h.covers

end Expressions

section Statements

variable {result : StaticType}

mutual

theorem Statement.covers : ∀ {c c' : Chain} {s : Node} {as : List Annotation},
    Statement result c s c' as → Covers s.preorder as
  | _, _, _, _, .declaration h _ => h.covers.cons rfl (isComplete_of_declaration rfl rfl)
  | _, _, _, _, .evaluation h => h.covers.behind rfl
  | _, _, _, _, .assignment h _ _ h' _ => (h.covers.append h'.covers).behind rfl
  | _, _, _, _, .conditional h _ h' h'' =>
      ((h.covers.append h'.covers).append h''.covers).behind rfl
  | _, _, _, _, .loop h h' => (h.covers.append h'.covers).behind rfl
  | _, _, _, _, .switch h h' => (h.covers.append h'.covers).behind rfl
  | _, _, _, _, .plainReturn _ => covers_nil.behind rfl
  | _, _, _, _, .returning h => h.covers.behind rfl

theorem Block.covers : ∀ {c : Chain} {ss : List Node} {as : List Annotation},
    Block result c ss as → Covers (Node.preorderOf ss) as
  | _, _, _, .nil => covers_nil
  | _, _, _, .cons h hs => h.covers.append hs.covers

theorem Arms.covers : ∀ {c : Chain} {t : StaticType} {arms : List Node} {as : List Annotation},
    Arms result c t arms as → Covers (Node.preorderOf arms) as
  | _, _, _, _, @Arms.last _ _ _ body as h => by
      have harm : Covers (Node.arm .absent body :: Node.preorderOf body) as := h.covers.behind rfl
      simpa [Node.preorderOf, Node.preorder] using harm
  | _, _, _, _, .cons _ h hs =>
      (((covers_nil.cons rfl (isComplete_of_expression rfl rfl)).append h.covers).behind
        rfl).append hs.covers

end

end Statements

section Programs

theorem Global.covers {c c' : Chain} {g : Node} {as : List Annotation} (h : Global c g c' as) :
    Covers g.preorder as := by
  cases h with
  | intro h _ => exact h.covers.cons rfl (isComplete_of_declaration rfl rfl)

theorem FunctionDeclaration.covers {c c' : Chain} {f : Node} {as : List Annotation}
    (h : FunctionDeclaration c f c' as) : Covers f.preorder as := by
  cases h with
  | intro _ _ _ _ h => exact h.covers.cons rfl isComplete_of_function

theorem Row.covers {R : Chain → Node → Chain → List Annotation → Prop}
    (hR : ∀ {c node c' as}, R c node c' as → Covers node.preorder as) {c c' : Chain}
    {nodes : List Node} {as : List Annotation} (h : Row R c nodes c' as) :
    Covers (Node.preorderOf nodes) as := by
  induction h with
  | nil => exact covers_nil
  | cons hfirst _ ih => exact (hR hfirst).append ih

/-- The records of a derivation cover the program. -/
theorem Program.covers {surroundings : List Scope} {program : Node} {as : List Annotation}
    (h : Program surroundings program as) : Covers program.preorder as := by
  cases h with
  | intro hglobals hfunctions _ =>
      exact ((hglobals.covers Global.covers).append
        (hfunctions.covers FunctionDeclaration.covers)).behind rfl

end Programs

end Derivation
end Typing
end BlockScript
