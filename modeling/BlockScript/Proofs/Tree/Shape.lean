import BlockScript.Tree.Basic

/-!
# The shape of trees that source text has

Declarations of globals and functions stand at the top of a program and nowhere else, a
function has as many type names as parameters, and literals are plain: no decimal is
special and a character is a text.

The parts of a node are formed as the grammar gives them: names are texts, a list has an
element and a switch a case, and cases stand in a switch only.
-/

namespace BlockScript

/-- A scalar that source text can denote. -/
def Scalar.IsPlain : Scalar → Prop
  | .decimal (.finite _) => True
  | .decimal _ => False
  | .character (.string _) => True
  | .character _ => False
  | .foreign _ _ => False
  | _ => True

namespace Node

mutual

/-- A node and all of its parts have a property. -/
def Every (P : Node → Prop) : Node → Prop
  | absent => P absent
  | source globals functions =>
      P (source globals functions) ∧ EveryOf P globals ∧ EveryOf P functions
  | global name typeName isMutable value =>
      P (global name typeName isMutable value) ∧ Every P value
  | function name parameters parameterTypes returnType body =>
      P (function name parameters parameterTypes returnType body) ∧ EveryOf P body
  | evaluation expression => P (evaluation expression) ∧ Every P expression
  | declaration name typeName value => P (declaration name typeName value) ∧ Every P value
  | assignment target value => P (assignment target value) ∧ Every P target ∧ Every P value
  | conditional condition thenBody elseBody =>
      P (conditional condition thenBody elseBody) ∧ Every P condition ∧ EveryOf P thenBody ∧
        EveryOf P elseBody
  | arm value body => P (arm value body) ∧ Every P value ∧ EveryOf P body
  | switch condition arms => P (switch condition arms) ∧ Every P condition ∧ EveryOf P arms
  | loop condition body => P (loop condition body) ∧ Every P condition ∧ EveryOf P body
  | returning value => P (returning value) ∧ Every P value
  | literal value => P (literal value)
  | group expression => P (group expression) ∧ Every P expression
  | binary operator left right => P (binary operator left right) ∧ Every P left ∧ Every P right
  | access name offset => P (access name offset) ∧ Every P offset
  | call name arguments => P (call name arguments) ∧ EveryOf P arguments
  | list elements => P (list elements) ∧ EveryOf P elements

/-- All nodes of a row and all of their parts have a property. -/
def EveryOf (P : Node → Prop) : List Node → Prop
  | [] => True
  | node :: nodes => Every P node ∧ EveryOf P nodes

end

section Every

variable {P Q R : Node → Prop}

section Decisions

variable [DecidablePred P]

mutual

/-- Whether a node and all of its parts have a property is told part by part. -/
def decideEvery : (node : Node) → Decidable (node.Every P)
  | absent => inferInstanceAs (Decidable (P absent))
  | source globals functions =>
      have := decideEveryOf globals
      have := decideEveryOf functions
      inferInstanceAs (Decidable (_ ∧ _ ∧ _))
  | function _ _ _ _ body =>
      have := decideEveryOf body
      inferInstanceAs (Decidable (_ ∧ _))
  | global _ _ _ part | evaluation part | declaration _ _ part | returning part | group part
  | access _ part =>
      have := decideEvery part
      inferInstanceAs (Decidable (_ ∧ _))
  | assignment left right | binary _ left right =>
      have := decideEvery left
      have := decideEvery right
      inferInstanceAs (Decidable (_ ∧ _ ∧ _))
  | conditional condition thenBody elseBody =>
      have := decideEvery condition
      have := decideEveryOf thenBody
      have := decideEveryOf elseBody
      inferInstanceAs (Decidable (_ ∧ _ ∧ _ ∧ _))
  | arm part body | switch part body | loop part body =>
      have := decideEvery part
      have := decideEveryOf body
      inferInstanceAs (Decidable (_ ∧ _ ∧ _))
  | literal value => inferInstanceAs (Decidable (P (literal value)))
  | call _ parts | list parts =>
      have := decideEveryOf parts
      inferInstanceAs (Decidable (_ ∧ _))

/-- Whether all nodes of a row have a property is told node by node. -/
def decideEveryOf : (nodes : List Node) → Decidable (EveryOf P nodes)
  | [] => .isTrue trivial
  | node :: nodes =>
      have := decideEvery node
      have := decideEveryOf nodes
      inferInstanceAs (Decidable (_ ∧ _))

end

instance (node : Node) : Decidable (node.Every P) := decideEvery node

end Decisions

theorem Every.self {node : Node} (h : node.Every P) : P node := by
  cases node with
  | absent | literal => exact h
  | _ => exact h.1

theorem everyOf_append {as bs : List Node} :
    EveryOf P (as ++ bs) ↔ EveryOf P as ∧ EveryOf P bs := by
  induction as with
  | nil => simp [EveryOf]
  | cons a as ih => simp [EveryOf, ih, and_assoc]

theorem EveryOf.of_mem {nodes : List Node} (h : EveryOf P nodes) {node : Node}
    (hnode : node ∈ nodes) : node.Every P := by
  induction nodes with
  | nil => cases hnode
  | cons first others ih =>
      rcases List.mem_cons.mp hnode with rfl | hnode
      · exact h.1
      · exact ih h.2 hnode

/-- The tree in the place of a value is a part of its node, or is left out. -/
theorem Every.valuePart {node part : Node} (habsent : P absent) (h : node.Every P)
    (hpart : node.valuePart = .tree part) : part.Every P := by
  cases node with
  | «global» | declaration | returning =>
      cases hpart
      exact h.2
  | assignment =>
      cases hpart
      exact h.2.2
  | arm =>
      cases hpart
      exact h.2.1
  | literal s =>
      cases s with
      | foreign value place =>
          cases value <;> cases hpart
          exact habsent
      | _ => cases hpart
  | _ => cases hpart

mutual

/-- What two properties of the parts of a tree imply holds of all of its parts. -/
theorem Every.map₂ (himp : ∀ node, P node → Q node → R node) :
    ∀ {node : Node}, node.Every P → node.Every Q → node.Every R
  | absent, hp, hq => himp _ hp hq
  | source _ _, ⟨hp, hgs, hfs⟩, ⟨hq, hgs', hfs'⟩ =>
      ⟨himp _ hp hq, EveryOf.map₂ himp hgs hgs', EveryOf.map₂ himp hfs hfs'⟩
  | global _ _ _ _, ⟨hp, hv⟩, ⟨hq, hv'⟩ => ⟨himp _ hp hq, Every.map₂ himp hv hv'⟩
  | function _ _ _ _ _, ⟨hp, hb⟩, ⟨hq, hb'⟩ => ⟨himp _ hp hq, EveryOf.map₂ himp hb hb'⟩
  | evaluation _, ⟨hp, he⟩, ⟨hq, he'⟩ => ⟨himp _ hp hq, Every.map₂ himp he he'⟩
  | declaration _ _ _, ⟨hp, hv⟩, ⟨hq, hv'⟩ => ⟨himp _ hp hq, Every.map₂ himp hv hv'⟩
  | assignment _ _, ⟨hp, ht, hv⟩, ⟨hq, ht', hv'⟩ =>
      ⟨himp _ hp hq, Every.map₂ himp ht ht', Every.map₂ himp hv hv'⟩
  | conditional _ _ _, ⟨hp, hc, ha, hb⟩, ⟨hq, hc', ha', hb'⟩ =>
      ⟨himp _ hp hq, Every.map₂ himp hc hc', EveryOf.map₂ himp ha ha', EveryOf.map₂ himp hb hb'⟩
  | arm _ _, ⟨hp, hv, hb⟩, ⟨hq, hv', hb'⟩ =>
      ⟨himp _ hp hq, Every.map₂ himp hv hv', EveryOf.map₂ himp hb hb'⟩
  | switch _ _, ⟨hp, hc, ha⟩, ⟨hq, hc', ha'⟩ =>
      ⟨himp _ hp hq, Every.map₂ himp hc hc', EveryOf.map₂ himp ha ha'⟩
  | loop _ _, ⟨hp, hc, hb⟩, ⟨hq, hc', hb'⟩ =>
      ⟨himp _ hp hq, Every.map₂ himp hc hc', EveryOf.map₂ himp hb hb'⟩
  | returning _, ⟨hp, hv⟩, ⟨hq, hv'⟩ => ⟨himp _ hp hq, Every.map₂ himp hv hv'⟩
  | literal _, hp, hq => himp _ hp hq
  | group _, ⟨hp, he⟩, ⟨hq, he'⟩ => ⟨himp _ hp hq, Every.map₂ himp he he'⟩
  | binary _ _ _, ⟨hp, hl, hr⟩, ⟨hq, hl', hr'⟩ =>
      ⟨himp _ hp hq, Every.map₂ himp hl hl', Every.map₂ himp hr hr'⟩
  | access _ _, ⟨hp, ho⟩, ⟨hq, ho'⟩ => ⟨himp _ hp hq, Every.map₂ himp ho ho'⟩
  | call _ _, ⟨hp, ha⟩, ⟨hq, ha'⟩ => ⟨himp _ hp hq, EveryOf.map₂ himp ha ha'⟩
  | list _, ⟨hp, he⟩, ⟨hq, he'⟩ => ⟨himp _ hp hq, EveryOf.map₂ himp he he'⟩

theorem EveryOf.map₂ (himp : ∀ node, P node → Q node → R node) :
    ∀ {nodes : List Node}, EveryOf P nodes → EveryOf Q nodes → EveryOf R nodes
  | [], _, _ => trivial
  | _ :: _, ⟨hp, hps⟩, ⟨hq, hqs⟩ => ⟨Every.map₂ himp hp hq, EveryOf.map₂ himp hps hqs⟩

end

mutual

/-- A property of all nodes is one of all parts of a tree. -/
theorem every_of_forall (h : ∀ node, P node) : ∀ node : Node, node.Every P
  | absent => h _
  | source gs fs => ⟨h _, everyOf_of_all h gs, everyOf_of_all h fs⟩
  | global _ _ _ v => ⟨h _, every_of_forall h v⟩
  | function _ _ _ _ b => ⟨h _, everyOf_of_all h b⟩
  | evaluation e => ⟨h _, every_of_forall h e⟩
  | declaration _ _ v => ⟨h _, every_of_forall h v⟩
  | assignment t v => ⟨h _, every_of_forall h t, every_of_forall h v⟩
  | conditional c a b => ⟨h _, every_of_forall h c, everyOf_of_all h a, everyOf_of_all h b⟩
  | arm v b => ⟨h _, every_of_forall h v, everyOf_of_all h b⟩
  | switch c as => ⟨h _, every_of_forall h c, everyOf_of_all h as⟩
  | loop c b => ⟨h _, every_of_forall h c, everyOf_of_all h b⟩
  | returning v => ⟨h _, every_of_forall h v⟩
  | literal _ => h _
  | group e => ⟨h _, every_of_forall h e⟩
  | binary _ l r => ⟨h _, every_of_forall h l, every_of_forall h r⟩
  | access _ o => ⟨h _, every_of_forall h o⟩
  | call _ as => ⟨h _, everyOf_of_all h as⟩
  | list es => ⟨h _, everyOf_of_all h es⟩

theorem everyOf_of_all (h : ∀ node, P node) : ∀ nodes : List Node, EveryOf P nodes
  | [] => trivial
  | node :: nodes => ⟨every_of_forall h node, everyOf_of_all h nodes⟩

end

theorem Every.map (himp : ∀ node, P node → Q node) {node : Node} (h : node.Every P) :
    node.Every Q :=
  Every.map₂ (fun node hp _ => himp node hp) h h

theorem EveryOf.map (himp : ∀ node, P node → Q node) {nodes : List Node} (h : EveryOf P nodes) :
    EveryOf Q nodes :=
  EveryOf.map₂ (fun node hp _ => himp node hp) h h

end Every

/-- The name of a node, where its kind has one, has a text with a property. -/
def Named (M : String → Prop) (node : Node) : Prop := ∀ name, node.name? = some name → M name.text

/-- A node is no literal of a scalar without a property, and the text of its name is one with
it. -/
structure Only (P : Scalar → Prop) (node : Node) : Prop where
  literal : ∀ s, node = .literal s → P s
  name : node.Named fun text => P (.string text)

theorem Only.of_nameless {P : Scalar → Prop} {node : Node} (hliteral : ∀ s, node ≠ .literal s)
    (hname : node.name? = none) : Only P node where
  literal s hs := absurd hs (hliteral s)
  name := by
    intro name hsome
    rw [hname] at hsome
    cases hsome

theorem Only.of_name {P : Scalar → Prop} {node : Node} {name : Name}
    (hliteral : ∀ s, node ≠ .literal s) (hname : node.name? = some name)
    (h : P (.string name.text)) : Only P node where
  literal s hs := absurd hs (hliteral s)
  name := by
    intro name' hsome
    rw [hname] at hsome
    cases hsome
    exact h

/-- A name that source text can give, which is not that of the value of a switch. -/
def IsSpelled (name : Name) : Prop := ∃ s : String, name = .ofText s ∧ s ≠ "$switch"

/-- A statement, an expression or a case, with no declaration of a global or a function. -/
def IsInner : Node → Prop
  | source _ _ => False
  | global _ _ _ _ => False
  | function _ _ _ _ _ => False
  | literal value => value.IsPlain
  | declaration name _ _ => IsSpelled name
  | access name _ => IsSpelled name
  | _ => True

/-- The declaration of a global. -/
def IsGlobal : Node → Prop
  | global name _ _ value => IsSpelled name ∧ value.Every IsInner
  | _ => False

/-- The declaration of a function. -/
def IsFunction : Node → Prop
  | function _ parameters parameterTypes _ body =>
      parameters.length = parameterTypes.length ∧ (∀ p ∈ parameters, IsSpelled p) ∧
        EveryOf IsInner body
  | _ => False

/-- A program with its declarations in their places. -/
def IsProgram : Node → Prop
  | source globals functions => (∀ g ∈ globals, g.IsGlobal) ∧ ∀ f ∈ functions, f.IsFunction
  | _ => False

/-- A name that is a text. -/
def IsText (name : Name) : Prop := ∃ s : String, name = .ofText s

/-- The name of a type: a text, or nothing. -/
def IsTypeName (typeName : Name) : Prop := typeName = .missing ∨ IsText typeName

/-- A row of statements, none of which is a case. -/
def HasNoArm (nodes : List Node) : Prop := ∀ value body, Node.arm value body ∉ nodes

/-- The parts of a node are such as the grammar gives it. -/
def IsFormed : Node → Prop
  | global name typeName _ _ => IsText name ∧ IsTypeName typeName
  | function name parameters parameterTypes returnType body =>
      IsText name ∧ (∀ p ∈ parameters, IsText p) ∧ (∀ t ∈ parameterTypes, IsTypeName t) ∧
        IsTypeName returnType ∧ HasNoArm body
  | declaration name typeName _ => IsText name ∧ IsTypeName typeName
  | conditional _ thenBody elseBody => HasNoArm thenBody ∧ HasNoArm elseBody
  | arm _ body => HasNoArm body
  | switch _ arms => arms ≠ []
  | loop _ body => HasNoArm body
  | access name _ => IsText name
  | call name _ => IsText name
  | list elements => elements ≠ []
  | _ => True

theorem isText_ofText (s : String) : IsText (.ofText s) := ⟨s, rfl⟩

theorem isTypeName_ofText? (type : Option String) : IsTypeName (.ofText? type) := by
  cases type with
  | none => exact Or.inl rfl
  | some s => exact Or.inr ⟨s, rfl⟩

theorem IsText.isBindable {name : Name} (h : IsText name) : name.isBindable = true := by
  obtain ⟨s, rfl⟩ := h
  rfl

end Node
end BlockScript
