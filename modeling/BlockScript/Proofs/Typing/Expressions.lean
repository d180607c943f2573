import BlockScript.Typing.Expression

/-!
# What typed expressions are made of

One lemma for each kind of expression: what holds of its parts when it has a type.
-/

namespace BlockScript
namespace Typing

section Results

variable {ε α β : Type}

theorem except_bind_eq_ok {r : Except ε α} {next : α → Except ε β} {b : β} :
    (r >>= next) = .ok b ↔ ∃ a, r = .ok a ∧ next a = .ok b := by
  cases r with
  | ok a => exact ⟨fun h => ⟨a, rfl, h⟩, fun ⟨_, ha, h⟩ => by cases ha; exact h⟩
  | error e => exact ⟨nofun, fun ⟨_, ha, _⟩ => nomatch ha⟩

theorem rejectNaming_ne_ok {type : Option StaticType} {error : StaticType → CheckError} {a : α} :
    rejectNaming type error ≠ .ok a := by
  intro h
  obtain ⟨t, _, ht⟩ := except_bind_eq_ok.mp h
  cases ht

theorem rejectNamingBoth_ne_ok {left right : Option StaticType}
    {error : StaticType → StaticType → CheckError} {a : α} :
    rejectNamingBoth left right error ≠ .ok a := by
  intro h
  obtain ⟨l, _, h⟩ := except_bind_eq_ok.mp h
  obtain ⟨r, _, h⟩ := except_bind_eq_ok.mp h
  cases h

theorem boundUnder_eq_ok {name : Name} {binding : Except ScopeFault α} {a : α}
    (h : boundUnder name binding = .ok a) : name.isBindable = true ∧ binding = .ok a := by
  unfold boundUnder at h
  split at h
  · rename_i hname
    cases binding with
    | ok b =>
        cases h
        exact ⟨hname, rfl⟩
    | error fault => cases h
  · cases h

theorem accepts_of_requireAssignable {target source : Option StaticType} {u : Unit}
    (h : requireAssignable target source = .ok u) : StaticType.accepts target source = true := by
  unfold requireAssignable at h
  split at h
  · assumption
  · exact absurd h rejectNamingBoth_ne_ok

theorem accepts_of_requireArgument {function : String} {target source : Option StaticType}
    {u : Unit} (h : requireArgument function target source = .ok u) :
    StaticType.accepts target source = true := by
  unfold requireArgument at h
  split at h
  · assumption
  · exact absurd h rejectNamingBoth_ne_ok

end Results

section Expressions

variable {scopes : Chain} {expected : Option StaticType} {found : Typed}

theorem typeOf_literal {value : Scalar} (h : typeOf scopes expected (.literal value) = .ok found) :
    ∃ type, literalType value = .ok type ∧
      found = ⟨some type, [⟨.literal value, .expression (some type)⟩]⟩ := by
  unfold typeOf at h
  obtain ⟨type, htype, h⟩ := except_bind_eq_ok.mp h
  cases h
  exact ⟨type, htype, rfl⟩

theorem typeOf_group {inner : Node} (h : typeOf scopes expected (.group inner) = .ok found) :
    ∃ part, typeOf scopes none inner = .ok part ∧
      found = ⟨part.type, ⟨.group inner, .expression part.type⟩ :: part.annotations⟩ := by
  unfold typeOf at h
  split at h
  · obtain ⟨part, hpart, h⟩ := except_bind_eq_ok.mp h
    cases h
    exact ⟨part, hpart, rfl⟩
  · cases h

theorem typeOf_binary {operator : Name} {left right : Node}
    (h : typeOf scopes expected (.binary operator left right) = .ok found) :
    ∃ l r type, typeOf scopes none left = .ok l ∧ typeOf scopes none right = .ok r ∧
      binaryType operator.text l.type r.type = .ok type ∧
      found = ⟨type, ⟨.binary operator left right, .expression type⟩ ::
        (l.annotations ++ r.annotations)⟩ := by
  unfold typeOf at h
  obtain ⟨l, hl, h⟩ := except_bind_eq_ok.mp h
  obtain ⟨r, hr, h⟩ := except_bind_eq_ok.mp h
  obtain ⟨type, htype, h⟩ := except_bind_eq_ok.mp h
  cases h
  exact ⟨l, r, type, hl, hr, htype, rfl⟩

theorem typeOf_access {name : Name} {offset : Node}
    (h : typeOf scopes expected (.access name offset) = .ok found) :
    ∃ others v, typeOfOffset scopes name offset = .ok others ∧ name.isBindable = true ∧
      scopes.lookupVariable name = .ok v ∧
      found = ⟨v.type, ⟨.access name offset, .access v⟩ :: others⟩ := by
  unfold typeOf at h
  obtain ⟨others, hothers, h⟩ := except_bind_eq_ok.mp h
  obtain ⟨v, hv, h⟩ := except_bind_eq_ok.mp h
  obtain ⟨hname, hv⟩ := boundUnder_eq_ok hv
  cases h
  exact ⟨others, v, hothers, hname, hv, rfl⟩

theorem typeOf_offset {name : Name} {offset : Node} {others : List Annotation}
    (h : typeOfOffset scopes name offset = .ok others) :
    offset.isAbsent = true ∧ others = [] ∨
      ∃ part, typeOf scopes none offset = .ok part ∧ others = part.annotations := by
  cases offset with
  | absent =>
      unfold typeOfOffset at h
      cases h
      exact Or.inl ⟨rfl, rfl⟩
  | _ =>
      unfold typeOfOffset at h
      obtain ⟨part, hpart, h⟩ := except_bind_eq_ok.mp h
      obtain ⟨_, _, h⟩ := except_bind_eq_ok.mp h
      cases h
      exact Or.inr ⟨part, hpart, rfl⟩

theorem typeOf_call {name : Name} {arguments : List Node}
    (h : typeOf scopes expected (.call name arguments) = .ok found) :
    ∃ f others, name.isBindable = true ∧ scopes.lookupFunction name arguments.length = .ok f ∧
      typeOfArguments scopes name.text arguments f.parameterTypes = .ok others ∧
      found = ⟨some f.returnType, ⟨.call name arguments, .call f⟩ :: others⟩ := by
  unfold typeOf at h
  obtain ⟨f, hf, h⟩ := except_bind_eq_ok.mp h
  obtain ⟨others, hothers, h⟩ := except_bind_eq_ok.mp h
  obtain ⟨hname, hf⟩ := boundUnder_eq_ok hf
  cases h
  exact ⟨f, others, hname, hf, hothers, rfl⟩

theorem typeOf_arguments {function : String} {argument : Node} {arguments : List Node}
    {type : StaticType} {types : List StaticType} {others : List Annotation}
    (h : typeOfArguments scopes function (argument :: arguments) (type :: types) = .ok others) :
    ∃ part rest, typeOf scopes none argument = .ok part ∧
      StaticType.accepts (some type) part.type = true ∧
      typeOfArguments scopes function arguments types = .ok rest ∧
      others = part.annotations ++ rest := by
  unfold typeOfArguments at h
  obtain ⟨part, hpart, h⟩ := except_bind_eq_ok.mp h
  obtain ⟨_, haccepts, h⟩ := except_bind_eq_ok.mp h
  obtain ⟨rest, hrest, h⟩ := except_bind_eq_ok.mp h
  cases h
  exact ⟨part, rest, hpart, accepts_of_requireArgument haccepts, hrest, rfl⟩

/-- The arguments up to one of them have types, and that one has. -/
theorem typeOf_arguments_split {function : String} {before behind : List Node} {argument : Node}
    {types : List StaticType} {others : List Annotation}
    (h : typeOfArguments scopes function (before ++ argument :: behind) types = .ok others)
    (hlength : (before ++ argument :: behind).length = types.length) :
    ∃ types₁ others₁ part rest, before.length = types₁.length ∧
      typeOfArguments scopes function before types₁ = .ok others₁ ∧
      typeOf scopes none argument = .ok part ∧ others = others₁ ++ (part.annotations ++ rest) := by
  induction before generalizing types others with
  | nil =>
      cases types with
      | nil => cases hlength
      | cons type types =>
          obtain ⟨part, rest, hpart, _, _, rfl⟩ := typeOf_arguments h
          have hnone : typeOfArguments scopes function [] [] = .ok [] := by
            unfold typeOfArguments
            rfl
          exact ⟨[], [], part, rest, rfl, hnone, hpart, rfl⟩
  | cons first before ih =>
      cases types with
      | nil => cases hlength
      | cons type types =>
          have hsplit := h
          unfold typeOfArguments at hsplit
          obtain ⟨found, hfound, hsplit⟩ := except_bind_eq_ok.mp hsplit
          obtain ⟨u, hrequire, hsplit⟩ := except_bind_eq_ok.mp hsplit
          obtain ⟨others', hothers, hsplit⟩ := except_bind_eq_ok.mp hsplit
          cases hsplit
          obtain ⟨types₁, others₁, part, rest, hlen, hbefore, hpart, rfl⟩ :=
            ih hothers (Nat.succ.inj hlength)
          refine ⟨type :: types₁, found.annotations ++ others₁, part, rest, congrArg Nat.succ hlen,
            ?_, hpart, (List.append_assoc _ _ _).symm⟩
          unfold typeOfArguments
          exact except_bind_eq_ok.mpr ⟨found, hfound, except_bind_eq_ok.mpr ⟨u, hrequire,
            except_bind_eq_ok.mpr ⟨others₁, hbefore, rfl⟩⟩⟩

theorem typeOf_list {elements : List Node}
    (h : typeOf scopes expected (.list elements) = .ok found) :
    ∃ part, typeOfElements scopes expected elements = .ok part ∧
      found = ⟨part.type, ⟨.list elements, .expression part.type⟩ :: part.annotations⟩ := by
  unfold typeOf at h
  obtain ⟨part, hpart, h⟩ := except_bind_eq_ok.mp h
  cases h
  exact ⟨part, hpart, rfl⟩

theorem typeOf_elements {element : Node} {elements : List Node} {listType : Option StaticType}
    (h : typeOfElements scopes listType (element :: elements) = .ok found) :
    ∃ part type rest, typeOf scopes none element = .ok part ∧
      typeOfElements scopes type elements = .ok rest ∧
      found = ⟨rest.type, part.annotations ++ rest.annotations⟩ := by
  unfold typeOfElements at h
  obtain ⟨part, hpart, h⟩ := except_bind_eq_ok.mp h
  obtain ⟨type, _, h⟩ := except_bind_eq_ok.mp h
  obtain ⟨rest, hrest, h⟩ := except_bind_eq_ok.mp h
  cases h
  exact ⟨part, type, rest, hpart, hrest, rfl⟩

/-- The elements up to one of them have types, and that one has. -/
theorem typeOf_elements_split {before behind : List Node} {element : Node}
    {listType : Option StaticType}
    (h : typeOfElements scopes listType (before ++ element :: behind) = .ok found) :
    ∃ found₁ part rest, typeOfElements scopes listType before = .ok found₁ ∧
      typeOf scopes none element = .ok part ∧
      found.annotations = found₁.annotations ++ (part.annotations ++ rest) := by
  induction before generalizing listType found with
  | nil =>
      obtain ⟨part, type, rest, hpart, _, rfl⟩ := typeOf_elements h
      have hnone : typeOfElements scopes listType [] = .ok ⟨listType, []⟩ := by
        unfold typeOfElements
        rfl
      exact ⟨_, part, rest.annotations, hnone, hpart, rfl⟩
  | cons first before ih =>
      have hsplit := h
      unfold typeOfElements at hsplit
      obtain ⟨part, hpart, hsplit⟩ := except_bind_eq_ok.mp hsplit
      obtain ⟨type, htype, hsplit⟩ := except_bind_eq_ok.mp hsplit
      obtain ⟨others, hothers, hsplit⟩ := except_bind_eq_ok.mp hsplit
      cases hsplit
      obtain ⟨found₁, element', rest, hbefore, helement, heq⟩ := ih hothers
      refine ⟨⟨found₁.type, part.annotations ++ found₁.annotations⟩, element', rest, ?_, helement,
        ?_⟩
      · unfold typeOfElements
        exact except_bind_eq_ok.mpr ⟨part, hpart, except_bind_eq_ok.mpr ⟨type, htype,
          except_bind_eq_ok.mpr ⟨found₁, hbefore, rfl⟩⟩⟩
      · dsimp only
        rw [heq, List.append_assoc]

/-- The first annotation of an expression is that of the expression itself, with its type. -/
theorem typeOf_head {node : Node} (h : typeOf scopes expected node = .ok found) :
    ∃ finding others, found.annotations = ⟨node, finding⟩ :: others ∧
      finding.type? = some found.type := by
  cases node with
  | literal value =>
      obtain ⟨type, _, rfl⟩ := typeOf_literal h
      exact ⟨_, _, rfl, rfl⟩
  | group inner =>
      obtain ⟨part, _, rfl⟩ := typeOf_group h
      exact ⟨_, _, rfl, rfl⟩
  | binary operator left right =>
      obtain ⟨l, r, type, _, _, _, rfl⟩ := typeOf_binary h
      exact ⟨_, _, rfl, rfl⟩
  | access name offset =>
      obtain ⟨others, v, _, _, _, rfl⟩ := typeOf_access h
      exact ⟨_, _, rfl, rfl⟩
  | call name arguments =>
      obtain ⟨f, others, _, _, _, rfl⟩ := typeOf_call h
      exact ⟨_, _, rfl, rfl⟩
  | list elements =>
      obtain ⟨part, _, rfl⟩ := typeOf_list h
      exact ⟨_, _, rfl, rfl⟩
  | _ =>
      unfold typeOf at h
      cases h

end Expressions

end Typing
end BlockScript
