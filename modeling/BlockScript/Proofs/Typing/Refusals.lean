import BlockScript.Proofs.Outcome
import BlockScript.Proofs.Tree.Placement
import BlockScript.Typing.Program

/-!
# How a check refuses a regular tree

In scopes whose variables all have a type, the check of a regular tree ends with annotations
or with a broken rule of the language, and never with a place that it was not made for.
Every expression of such a tree has a type: a list literal has an element, which gives it
one.
-/

namespace BlockScript

/-- Every variable of a scope has a type. -/
def Scope.IsTyped (s : Scope) : Prop := ∀ v ∈ s.vars, v.type ≠ none

/-- Every variable of a chain has a type. -/
def Chain.IsTyped (c : Chain) : Prop := ∀ s ∈ c.toList, s.IsTyped

/-- A failure that reports a broken rule. -/
def CheckFailure.IsRejection (e : CheckFailure) : Prop := ∃ error, e = .rejected error

namespace Chain.IsTyped

variable {c : Chain}

theorem root {surroundings : List Scope} (h : ∀ s ∈ surroundings, s.IsTyped) :
    (Chain.root surroundings).IsTyped := by
  intro s hs
  rcases List.mem_cons.mp hs with rfl | hs
  · exact nofun
  · exact h s hs

theorem push (h : c.IsTyped) : c.push.IsTyped := by
  intro s hs
  rcases List.mem_cons.mp hs with rfl | hs
  · exact nofun
  · exact h s hs

theorem pop (h : c.IsTyped) : c.pop.IsTyped := by
  obtain ⟨current, outer⟩ := c
  cases outer with
  | nil => exact h
  | cons s outer => exact fun s' hs' => h s' (List.mem_cons_of_mem _ hs')

theorem lookupVariable (h : c.IsTyped) {name : Name} {v : Variable}
    (hv : c.lookupVariable name = .ok v) : v.type ≠ none := by
  unfold Chain.lookupVariable at hv
  split at hv
  · rename_i found hfound
    cases hv
    obtain ⟨s, hs, hvar⟩ := List.exists_of_findSome?_eq_some hfound
    exact h s hs v (List.mem_of_find?_eq_some hvar)
  · cases hv

theorem defineVariable (h : c.IsTyped) {v : Variable} (hv : v.type ≠ none) {c' : Chain}
    (hc' : c.defineVariable v = .ok c') : c'.IsTyped := by
  unfold Chain.defineVariable Scope.defineVariable at hc'
  split at hc'
  · cases hc'
  · cases hc'
    intro s hs
    rcases List.mem_cons.mp hs with rfl | hs
    · intro w hw
      rcases List.mem_cons.mp hw with rfl | hw
      · exact hv
      · exact h c.current List.mem_cons_self w hw
    · exact h s (List.mem_cons_of_mem _ hs)

theorem defineFunction (h : c.IsTyped) {f : Function} {c' : Chain}
    (hc' : c.defineFunction f = .ok c') : c'.IsTyped := by
  unfold Chain.defineFunction Scope.defineFunction at hc'
  split at hc'
  · cases hc'
  · cases hc'
    intro s hs
    rcases List.mem_cons.mp hs with rfl | hs
    · exact h c.current List.mem_cons_self
    · exact h s (List.mem_cons_of_mem _ hs)

end Chain.IsTyped

namespace Typing

open BlockScript.Computation Node

section Decisions

variable {α β : Type}

/-- A result meets a condition, or the failure is a broken rule. -/
def Decides (r : Except CheckFailure α) (post : α → Prop) : Prop :=
  match r with
  | .ok a => post a
  | .error e => e.IsRejection

variable {post : α → Prop}

theorem Decides.bind {r : Except CheckFailure α} {next : α → Except CheckFailure β}
    {post' : β → Prop} (h : Decides r post) (hnext : ∀ a, post a → Decides (next a) post') :
    Decides (r >>= next) post' := by
  cases r with
  | ok a => exact hnext a h
  | error e => exact h

theorem decides_reject (error : CheckError) : Decides (reject error) post := ⟨error, rfl⟩

theorem decides_rejectNaming {type : Option StaticType} (h : type ≠ none)
    (error : StaticType → CheckError) : Decides (rejectNaming type error) post := by
  cases type with
  | none => exact absurd rfl h
  | some t => exact decides_reject _

theorem decides_rejectNamingBoth {left right : Option StaticType} (hleft : left ≠ none)
    (hright : right ≠ none) (error : StaticType → StaticType → CheckError) :
    Decides (rejectNamingBoth left right error) post := by
  cases left with
  | none => exact absurd rfl hleft
  | some l =>
      cases right with
      | none => exact absurd rfl hright
      | some r => exact decides_reject _

theorem decides_boundUnder {name : Name} (hname : IsText name) {binding : Except ScopeFault α}
    (h : ∀ a, binding = .ok a → post a) : Decides (boundUnder name binding) post := by
  unfold boundUnder
  rw [if_pos hname.isBindable]
  cases binding with
  | ok a => exact h a rfl
  | error fault => exact decides_reject _

end Decisions

section Types

variable {left right : Option StaticType}

/-- A literal that is plain and can be written has a type. -/
theorem decides_literalType {s : Scalar} (hplain : s.IsPlain) (hwritten : IsWritten s) :
    Decides (literalType s) fun _ => True := by
  unfold literalType
  split
  · rename_i n
    split
    · trivial
    · split
      · exact decides_reject _
      · rename_i hnone
        exact absurd hnone (hwritten n rfl)
  · rename_i d
    cases d with
    | finite d =>
        have hquiet : ¬ (Decimal.finite d).signals = true := Bool.false_ne_true
        rw [if_neg hquiet]
        split
        · exact decides_reject _
        · trivial
    | _ => exact hplain.elim
  · exact hplain.elim
  · trivial

theorem decides_binaryType (operator : String) (hleft : left ≠ none) (hright : right ≠ none) :
    Decides (binaryType operator left right) fun type => type ≠ none := by
  unfold binaryType
  split
  · split
    · exact nofun
    · exact decides_rejectNamingBoth hleft hright _
  split
  · split
    · exact nofun
    split
    · exact hleft
    · exact decides_rejectNamingBoth hleft hright _
  split
  · split
    · exact hleft
    · exact decides_rejectNamingBoth hleft hright _
  split
  · split
    · exact nofun
    · exact decides_rejectNamingBoth hleft hright _
  split
  · split
    · exact nofun
    · exact decides_rejectNamingBoth hleft hright _
  · exact decides_reject _

theorem decides_requireAssignable (htarget : left ≠ none) (hsource : right ≠ none) :
    Decides (requireAssignable left right) fun _ => True := by
  unfold requireAssignable
  split
  · trivial
  · exact decides_rejectNamingBoth hsource htarget _

theorem decides_requireArgument (function : String) (htarget : left ≠ none)
    (hsource : right ≠ none) : Decides (requireArgument function left right) fun _ => True := by
  unfold requireArgument
  split
  · trivial
  · exact decides_rejectNamingBoth hsource htarget _

theorem decides_requireIndex (name : Name) (htype : left ≠ none) :
    Decides (requireIndex name left) fun _ => True := by
  unfold requireIndex
  split
  · trivial
  · exact decides_rejectNaming htype _

theorem decides_withElement (listType : Option StaticType) {type : Option StaticType}
    (htype : type ≠ none) : Decides (withElement listType type) fun result => result ≠ none := by
  unfold withElement
  split
  · exact htype
  · rename_i hlist
    split
    · exact hlist
    · exact decides_rejectNamingBoth htype hlist _

end Types

section Expressions

variable {has : Contents} {scopes : Chain}

mutual

/-- An expression of a regular tree has a type, or breaks a rule. -/
theorem decides_typeOf (hscopes : scopes.IsTyped) (expected : Option StaticType) :
    (node : Node) → node.IsExpression → node.Every (IsRegular has) →
      Decides (typeOf scopes expected node) fun found => found.type ≠ none
  | .literal s, _, h => by
      unfold typeOf
      refine (decides_literalType (h.plain s rfl) h.placed).bind ?_
      intro type _
      exact nofun
  | .group inner, _, ⟨h, hinner⟩ => by
      unfold typeOf
      split
      · refine (decides_typeOf hscopes none inner h.placed hinner).bind ?_
        intro found hfound
        exact hfound
      · exact decides_reject _
  | .binary operator left right, _, ⟨h, hleft, hright⟩ => by
      unfold typeOf
      obtain ⟨_, hl, hr⟩ := h.placed
      refine (decides_typeOf hscopes none left hl hleft).bind ?_
      intro l hltype
      refine (decides_typeOf hscopes none right hr hright).bind ?_
      intro r hrtype
      refine (decides_binaryType operator.text hltype hrtype).bind ?_
      intro type htype
      exact htype
  | .access name offset, _, ⟨h, hoffset⟩ => by
      unfold typeOf
      refine (decides_typeOfOffset hscopes name offset h.placed hoffset).bind ?_
      intro found _
      have hlookup : Decides (boundUnder name (scopes.lookupVariable name))
          fun v => v.type ≠ none :=
        decides_boundUnder h.formed fun v hv => hscopes.lookupVariable hv
      refine hlookup.bind ?_
      intro target htarget
      exact htarget
  | .call name arguments, _, ⟨h, harguments⟩ => by
      unfold typeOf
      have hlookup : Decides (boundUnder name (scopes.lookupFunction name arguments.length))
          fun _ => True :=
        decides_boundUnder h.formed fun _ _ => trivial
      refine hlookup.bind ?_
      intro callee _
      refine (decides_typeOfArguments hscopes name.text arguments callee.parameterTypes
        h.placed harguments).bind ?_
      intro found _
      exact nofun
  | .list elements, _, ⟨h, helements⟩ => by
      unfold typeOf
      refine (decides_typeOfElements hscopes expected elements h.placed.2 helements).bind ?_
      intro found hfound
      -- Only an empty list that nothing is expected of has no type.
      exact hfound (Or.inl h.placed.1)

theorem decides_typeOfOffset (hscopes : scopes.IsTyped) (name : Name) :
    (offset : Node) → offset.IsOptional → offset.Every (IsRegular has) →
      Decides (typeOfOffset scopes name offset) fun _ => True
  | offset, hoptional, h => by
      unfold typeOfOffset
      split
      · trivial
      · rename_i hpresent
        have hexpression : offset.IsExpression := hoptional.resolve_left hpresent
        refine (decides_typeOf hscopes none offset hexpression h).bind ?_
        intro found hfound
        exact (decides_requireIndex name hfound).bind fun _ _ => trivial

theorem decides_typeOfArguments (hscopes : scopes.IsTyped) (function : String) :
    (arguments : List Node) → (types : List StaticType) → (∀ a ∈ arguments, a.IsExpression) →
      EveryOf (IsRegular has) arguments →
      Decides (typeOfArguments scopes function arguments types) fun _ => True
  | [], _, _, _ => by
      unfold typeOfArguments
      trivial
  | _ :: _, [], _, _ => by
      unfold typeOfArguments
      trivial
  | argument :: arguments, type :: types, hexpressions, ⟨h, hs⟩ => by
      unfold typeOfArguments
      refine (decides_typeOf hscopes none argument
        (hexpressions argument List.mem_cons_self) h).bind ?_
      intro found hfound
      refine (decides_requireArgument function (Option.some_ne_none type) hfound).bind ?_
      intro _ _
      refine (decides_typeOfArguments hscopes function arguments types
        (fun a ha => hexpressions a (List.mem_cons_of_mem _ ha)) hs).bind ?_
      intro others _
      trivial

theorem decides_typeOfElements (hscopes : scopes.IsTyped) (listType : Option StaticType) :
    (elements : List Node) → (∀ e ∈ elements, e.IsExpression) →
      EveryOf (IsRegular has) elements →
      Decides (typeOfElements scopes listType elements)
        fun found => elements ≠ [] ∨ listType ≠ none → found.type ≠ none
  | [], _, _ => by
      unfold typeOfElements
      exact fun h => h.resolve_left (absurd rfl)
  | element :: elements, hexpressions, ⟨h, hs⟩ => by
      unfold typeOfElements
      refine (decides_typeOf hscopes none element
        (hexpressions element List.mem_cons_self) h).bind ?_
      intro found hfound
      refine (decides_withElement listType hfound).bind ?_
      intro type htype
      refine (decides_typeOfElements hscopes type elements
        (fun e he => hexpressions e (List.mem_cons_of_mem _ he)) hs).bind ?_
      intro others hothers _
      exact hothers (Or.inr htype)

end

end Expressions

section Steps

variable {α β : Type} {s : CheckState} {has : Contents}

/-- A check keeps every variable typed, or stops at a broken rule. -/
def Refuses (c : Checking α) (s : CheckState) (post : α → Prop) : Prop :=
  c.Ensures s (fun a s' => s'.scopes.IsTyped ∧ post a) CheckFailure.IsRejection

theorem Refuses.bind {c : Checking α} {next : α → Checking β} {post : α → Prop}
    {post' : β → Prop} (h : Refuses c s post)
    (hnext : ∀ a s', s'.scopes.IsTyped → post a → Refuses (next a) s' post') :
    Refuses (c >>= next) s post' :=
  Ensures.bind h fun a s' ha => hnext a s' ha.1 ha.2

theorem refuses_pure {a : α} {post : α → Prop} (hs : s.scopes.IsTyped) (ha : post a) :
    Refuses (pure a) s post :=
  ensures_pure ⟨hs, ha⟩

theorem refuses_lift {r : Except CheckFailure α} {post : α → Prop} (hs : s.scopes.IsTyped)
    (h : Decides r post) : Refuses (lift r) s post := by
  cases r with
  | ok a => exact ⟨hs, h⟩
  | error e => exact h

theorem refuses_note (level : Nat) (message : String) (hs : s.scopes.IsTyped) :
    Refuses (note level message) s fun _ => True :=
  ensures_change ⟨hs, trivial⟩

theorem refuses_typeHere (expected : Option StaticType) {node : Node} (hs : s.scopes.IsTyped)
    (hexpression : node.IsExpression) (hnode : node.Every (IsRegular has)) :
    Refuses (typeHere expected node) s fun found => found.type ≠ none :=
  Ensures.ofState (refuses_lift hs (decides_typeOf hs expected node hexpression hnode))

theorem refuses_bindVariable {v : Variable} (hs : s.scopes.IsTyped) (hname : IsText v.name)
    (hv : v.type ≠ none) : Refuses (bindVariable v) s fun _ => True := by
  have hdefine : Decides (boundUnder v.name (s.scopes.defineVariable v)) Chain.IsTyped :=
    decides_boundUnder hname fun c hc => hs.defineVariable hv hc
  refine Ensures.ofState ((refuses_lift hs hdefine).bind ?_)
  intro c s' _ hc
  exact ensures_change ⟨hc, trivial⟩

theorem refuses_bindFunction {f : Function} (hs : s.scopes.IsTyped) (hname : IsText f.name) :
    Refuses (bindFunction f) s fun _ => True := by
  have hdefine : Decides (boundUnder f.name (s.scopes.defineFunction f)) Chain.IsTyped :=
    decides_boundUnder hname fun c hc => hs.defineFunction hc
  refine Ensures.ofState ((refuses_lift hs hdefine).bind ?_)
  intro c s' _ hc
  exact ensures_change ⟨hc, trivial⟩

theorem refuses_inScope {c : Checking α} {post : α → Prop} (h : Refuses c s.enter post) :
    Refuses (inScope c) s post :=
  Ensures.ofChange (Ensures.afterwards (h.imp fun _ _ ha => ⟨ha.1.pop, ha.2⟩))

theorem refuses_inFunction {f : Function} {c : Checking α} {post : α → Prop}
    (h : Refuses c (s.enterFunction f) post) : Refuses (inFunction f c) s post :=
  Ensures.ofChange (Ensures.afterwards (h.imp fun _ _ ha => ⟨ha.1.pop, ha.2⟩))

end Steps

section Statements

variable {s : CheckState} {has : Contents}

theorem decides_typeNamedOr (otherwise : StaticType) {name : Name} (h : IsTypeName name) :
    Decides (typeNamedOr otherwise name) fun _ => True := by
  unfold typeNamedOr
  split
  · trivial
  · rename_i hpresent
    have htext : IsText name := by
      refine h.resolve_left ?_
      rintro rfl
      exact hpresent rfl
    unfold typeNamed
    rw [if_pos htext.isBindable]
    split
    · trivial
    · exact decides_reject _

theorem decides_mapM {types : List Name} (h : ∀ t ∈ types, IsTypeName t) :
    Decides (types.mapM (typeNamedOr .any)) fun _ => True := by
  induction types with
  | nil => trivial
  | cons type types ih =>
      rw [List.mapM_cons]
      refine (decides_typeNamedOr .any (h type List.mem_cons_self)).bind ?_
      intro _ _
      refine (ih fun t ht => h t (List.mem_cons_of_mem _ ht)).bind ?_
      intro _ _
      trivial

theorem refuses_declaredType (name : Name) {typeName : Name} {value : Node}
    (hs : s.scopes.IsTyped) (htype : IsTypeName typeName) (hoptional : value.IsOptional)
    (hvalue : value.Every (IsRegular has)) :
    Refuses (declaredType name typeName value) s fun found => found.type ≠ none := by
  unfold declaredType
  split
  · split
    · exact refuses_lift hs (decides_reject _)
    · rename_i hpresent
      exact refuses_typeHere none hs (hoptional.isExpression hpresent) hvalue
  · rename_i hnamed
    have hnaming : Decides (typeNamed typeName) fun _ => True := by
      have h := decides_typeNamedOr .any htype
      rwa [typeNamedOr, if_neg hnamed] at h
    refine (refuses_lift hs hnaming).bind ?_
    intro declared s₁ hs₁ _
    split
    · exact refuses_pure hs₁ nofun
    · rename_i hpresent
      refine (refuses_typeHere (some declared) hs₁ (hoptional.isExpression hpresent) hvalue).bind ?_
      intro found s₂ hs₂ hfound
      have hassignable := decides_requireAssignable (Option.some_ne_none declared) hfound
      refine (refuses_lift hs₂ hassignable).bind ?_
      intro _ s₃ hs₃ _
      exact refuses_pure hs₃ nofun

theorem refuses_declare (node : Node) (verb : String) {name typeName : Name} (isMutable : Bool)
    {value : Node} (hs : s.scopes.IsTyped) (hname : IsText name) (htype : IsTypeName typeName)
    (hoptional : value.IsOptional) (hvalue : value.Every (IsRegular has)) :
    Refuses (declare node verb name typeName isMutable value) s fun _ => True := by
  refine (refuses_declaredType name hs htype hoptional hvalue).bind ?_
  intro found s₁ hs₁ hfound
  refine (refuses_bindVariable hs₁ hname hfound).bind ?_
  intro _ s₂ hs₂ _
  have hnamed : Decides (named found.type) fun _ => True := by
    unfold named
    split
    · trivial
    · exact absurd ‹found.type = none› hfound
  refine (refuses_lift hs₂ hnamed).bind ?_
  intro type s₃ hs₃ _
  refine (refuses_note 2 _ hs₃).bind ?_
  intro _ s₄ hs₄ _
  exact refuses_pure hs₄ trivial

theorem refuses_bindParameters {names : List Name} (types : List StaticType)
    (hs : s.scopes.IsTyped) (hnames : ∀ name ∈ names, IsText name) :
    Refuses (bindParameters names types) s fun _ => True := by
  induction names generalizing types s with
  | nil => exact refuses_pure hs trivial
  | cons name names ih =>
      cases types with
      | nil => exact refuses_pure hs trivial
      | cons type types =>
          refine (refuses_bindVariable hs (hnames name List.mem_cons_self)
            (Option.some_ne_none type)).bind ?_
          intro _ s₁ hs₁ _
          exact ih types hs₁ fun n hn => hnames n (List.mem_cons_of_mem _ hn)

theorem refuses_condition (statement : String) {node : Node} (hs : s.scopes.IsTyped)
    (hexpression : node.IsExpression) (hnode : node.Every (IsRegular has)) :
    Refuses (condition statement node) s fun _ => True := by
  refine (refuses_typeHere none hs hexpression hnode).bind ?_
  intro found s₁ hs₁ hfound
  split
  · exact refuses_pure hs₁ trivial
  · exact refuses_lift hs₁ (decides_rejectNaming hfound _)

/-- The target of an assignment is a variable that is known, and has a type. -/
theorem refuses_target {name : Name} {offset : Node} (hs : s.scopes.IsTyped)
    (htarget : (access name offset).Every (IsRegular has)) :
    Refuses (typeHere none (.access name offset)) s fun place => ∃ v,
      (place.annotations.head?.bind fun a => a.finding.boundVariable?) = some v ∧
        v.type ≠ none := by
  refine Ensures.ofState (refuses_lift hs ?_)
  obtain ⟨h, hoffset⟩ := htarget
  unfold typeOf
  refine (decides_typeOfOffset hs name offset h.placed hoffset).bind ?_
  intro found _
  have hlookup : Decides (boundUnder name (s.scopes.lookupVariable name))
      fun v => v.type ≠ none :=
    decides_boundUnder h.formed fun v hv => hs.lookupVariable hv
  refine hlookup.bind ?_
  intro v hv
  exact ⟨v, rfl, hv⟩

theorem refuses_assignment {target value : Node} (hs : s.scopes.IsTyped)
    (h : (Node.assignment target value).Every (IsRegular has)) :
    Refuses (assignment target value) s fun _ => True := by
  obtain ⟨hnode, htarget, hvalue⟩ := h
  obtain ⟨⟨name, offset, rfl⟩, hexpression⟩ := hnode.placed
  refine (refuses_target hs htarget).bind ?_
  rintro place s₁ hs₁ ⟨v, hv, htype⟩
  rw [hv]
  dsimp only
  split
  · refine (refuses_typeHere v.type hs₁ hexpression hvalue).bind ?_
    intro found s₂ hs₂ hfound
    refine (refuses_lift hs₂ (decides_requireAssignable htype hfound)).bind ?_
    intro _ s₃ hs₃ _
    exact refuses_pure hs₃ trivial
  · exact refuses_lift hs₁ (decides_reject _)

theorem decides_requireReturn (f : Function) {type : Option StaticType} (h : type ≠ none) :
    Decides (requireReturn f type) fun _ => True := by
  unfold requireReturn
  split
  · trivial
  · exact decides_rejectNaming h _

theorem refuses_returning {value : Node} (hs : s.scopes.IsTyped) (hoptional : value.IsOptional)
    (hvalue : value.Every (IsRegular has)) : Refuses (returning value) s fun _ => True := by
  unfold returning
  refine Ensures.ofState ?_
  split
  · exact refuses_lift hs (decides_reject _)
  · rename_i f _
    split
    · refine (refuses_lift hs (decides_requireReturn f (Option.some_ne_none _))).bind ?_
      intro _ s₁ hs₁ _
      exact refuses_pure hs₁ trivial
    · rename_i hpresent
      refine (refuses_typeHere none hs (hoptional.isExpression hpresent) hvalue).bind ?_
      intro found s₁ hs₁ hfound
      refine (refuses_lift hs₁ (decides_requireReturn f hfound)).bind ?_
      intro _ s₂ hs₂ _
      exact refuses_pure hs₂ trivial

theorem refuses_optionalExpression {node : Node} (hs : s.scopes.IsTyped)
    (hoptional : node.IsOptional) (hnode : node.Every (IsRegular has)) :
    Refuses (optionalExpression node) s fun _ => True := by
  unfold optionalExpression
  split
  · exact refuses_pure hs trivial
  · rename_i hpresent
    refine (refuses_typeHere none hs (hoptional.isExpression hpresent) hnode).bind ?_
    intro _ s₁ hs₁ _
    exact refuses_pure hs₁ trivial

/-- The value of a case is a literal of the type of the condition, or breaks a rule. -/
theorem refuses_caseValue {conditionType : Option StaticType} (position : Nat) {node : Node}
    (hs : s.scopes.IsTyped) (htype : conditionType ≠ none) (hnode : IsArm node)
    (harm : node.Every (IsRegular has)) :
    Refuses (caseValue conditionType position node) s fun _ => True := by
  obtain ⟨value, body, rfl⟩ := hnode.exists_eq
  unfold caseValue
  dsimp only [Node.valuePart]
  split
  · contradiction
  · rename_i s' hvalue
    cases hvalue
    have hexpression : (Node.literal s').IsExpression := trivial
    refine (refuses_typeHere none hs hexpression harm.2.1).bind ?_
    intro found s₁ hs₁ _
    split
    · exact refuses_pure hs₁ trivial
    · exact refuses_lift hs₁ (decides_rejectNaming htype _)
  · exact refuses_lift hs (decides_reject _)

theorem refuses_lastCaseValue {node : Node} (hs : s.scopes.IsTyped) (hnode : IsArm node) :
    Refuses (lastCaseValue node) s fun _ => True := by
  obtain ⟨value, body, rfl⟩ := hnode.exists_eq
  cases value with
  | absent => exact refuses_pure hs trivial
  | _ => exact refuses_lift hs (decides_reject _)

mutual

/-- The check of a regular statement or declaration ends well or breaks a rule. -/
theorem refuses_check : (node : Node) → IsExecuted node → node.Every (IsRegular has) →
    (s : CheckState) → s.scopes.IsTyped → Refuses (check node) s fun _ => True
  | .global name typeName isMutable value, _, ⟨h, hvalue⟩, s, hs => by
      unfold check
      exact refuses_declare _ "global" isMutable hs h.formed.1 h.formed.2 h.placed hvalue
  | .function name parameters parameterTypes returnType body, _, ⟨h, hbody⟩, s, hs => by
      unfold check
      obtain ⟨hname, hparameters, htypes, hreturn, _⟩ := h.formed
      have hsignature : Decides (signature name parameters parameterTypes returnType body)
          fun f => f.name = name := by
        refine (decides_mapM htypes).bind ?_
        intro _ _
        refine (decides_typeNamedOr .nil hreturn).bind ?_
        intro _ _
        rfl
      refine (refuses_lift hs hsignature).bind ?_
      rintro f s₁ hs₁ rfl
      refine (refuses_bindFunction hs₁ hname).bind ?_
      intro _ s₂ hs₂ _
      refine (refuses_note 1 _ hs₂).bind ?_
      intro _ s₃ hs₃ _
      refine (refuses_inFunction (?_ : Refuses _ _ fun _ => True)).bind ?_
      · refine (refuses_bindParameters f.parameterTypes hs₃.push hparameters).bind ?_
        intro _ s₄ hs₄ _
        exact refuses_checkAll body h.placed hbody s₄ hs₄
      · intro _ s₄ hs₄ _
        exact refuses_pure hs₄ trivial
  | .evaluation expression, _, ⟨h, hexpression⟩, s, hs => by
      unfold check
      refine (refuses_typeHere none hs h.placed hexpression).bind ?_
      intro _ s₁ hs₁ _
      exact refuses_pure hs₁ trivial
  | .declaration name typeName value, _, ⟨h, hvalue⟩, s, hs => by
      unfold check
      exact refuses_declare _ "declare" true hs h.formed.1 h.formed.2 h.placed hvalue
  | .assignment target value, _, h, s, hs => by
      unfold check
      exact refuses_assignment hs h
  | .conditional test thenBody elseBody, _, ⟨h, htest, hthen, helse⟩, s, hs => by
      unfold check
      obtain ⟨hexpression, hthenBody, helseBody⟩ := h.placed
      refine (refuses_condition "IF" hs hexpression htest).bind ?_
      intro _ s₁ hs₁ _
      split
      · exact refuses_lift hs₁ (decides_reject _)
      · refine (refuses_inScope (refuses_checkAll thenBody hthenBody hthen _ hs₁.push)).bind ?_
        intro _ s₂ hs₂ _
        refine (refuses_inScope (refuses_checkAll elseBody helseBody helse _ hs₂.push)).bind ?_
        intro _ s₃ hs₃ _
        exact refuses_pure hs₃ trivial
  | .loop test body, _, ⟨h, htest, hbody⟩, s, hs => by
      unfold check
      refine (refuses_condition "WHILE" hs h.placed.1 htest).bind ?_
      intro _ s₁ hs₁ _
      refine (refuses_inScope (refuses_checkAll body h.placed.2 hbody _ hs₁.push)).bind ?_
      intro _ s₂ hs₂ _
      exact refuses_pure hs₂ trivial
  | .switch test arms, _, ⟨h, htest, harms⟩, s, hs => by
      unfold check
      refine (refuses_typeHere none hs h.placed.1 htest).bind ?_
      intro found s₁ hs₁ hfound
      refine (refuses_checkArms found.type hfound arms 0 s₁ hs₁ h.placed.2.areArms harms).bind ?_
      intro _ s₂ hs₂ _
      exact refuses_pure hs₂ trivial
  | .arm value body, _, ⟨h, hvalue, hbody⟩, s, hs => by
      unfold check
      refine (refuses_optionalExpression hs h.placed.1 hvalue).bind ?_
      intro _ s₁ hs₁ _
      refine (refuses_inScope (refuses_checkAll body h.placed.2 hbody _ hs₁.push)).bind ?_
      intro _ s₂ hs₂ _
      exact refuses_pure hs₂ trivial
  | .returning value, _, ⟨h, hvalue⟩, s, hs => by
      unfold check
      exact refuses_returning hs h.placed hvalue

theorem refuses_checkAll : (nodes : List Node) → IsBody nodes →
    EveryOf (IsRegular has) nodes → (s : CheckState) → s.scopes.IsTyped →
    Refuses (checkAll nodes) s fun _ => True
  | [], _, _, s, hs => by
      unfold checkAll
      exact refuses_pure hs trivial
  | node :: nodes, hbody, ⟨h, hnodes⟩, s, hs => by
      unfold checkAll
      refine (refuses_check node (hbody node List.mem_cons_self).isExecuted h s hs).bind ?_
      intro _ s₁ hs₁ _
      have hothers : IsBody nodes := fun n hn => hbody n (List.mem_cons_of_mem _ hn)
      refine (refuses_checkAll nodes hothers hnodes s₁ hs₁).bind ?_
      intro _ s₂ hs₂ _
      exact refuses_pure hs₂ trivial

theorem refuses_checkArms (conditionType : Option StaticType) (htype : conditionType ≠ none) :
    (arms : List Node) → (position : Nat) → (s : CheckState) → s.scopes.IsTyped →
      (∀ a ∈ arms, IsArm a) → EveryOf (IsRegular has) arms →
      Refuses (checkArms conditionType position arms) s fun _ => True
  | [], position, s, hs, _, _ => by
      unfold checkArms
      exact refuses_pure hs trivial
  | first :: arms, position, s, hs, hforms, ⟨hfirst, harms⟩ => by
      unfold checkArms
      have harm := hforms first List.mem_cons_self
      have hothers : ∀ a ∈ arms, IsArm a := fun a ha => hforms a (List.mem_cons_of_mem _ ha)
      have hbehind : ∀ (found : List Annotation) (s₁ : CheckState), s₁.scopes.IsTyped →
          Refuses (do
            let inBody ← checkArmBody first
            let others ← checkArms conditionType (position + 1) arms
            return found ++ inBody ++ others) s₁ fun _ => True := by
        intro found s₁ hs₁
        refine (refuses_checkArmBody first harm hfirst s₁ hs₁).bind ?_
        intro _ s₂ hs₂ _
        refine (refuses_checkArms conditionType htype arms (position + 1) s₂ hs₂ hothers
          harms).bind ?_
        intro _ s₃ hs₃ _
        exact refuses_pure hs₃ trivial
      dsimp only
      split
      · refine (refuses_lastCaseValue hs harm).bind ?_
        intro found s₁ hs₁ _
        exact hbehind found s₁ hs₁
      · refine (refuses_caseValue position hs htype harm hfirst).bind ?_
        intro found s₁ hs₁ _
        exact hbehind found s₁ hs₁

theorem refuses_checkArmBody : (node : Node) → IsArm node → node.Every (IsRegular has) →
    (s : CheckState) → s.scopes.IsTyped → Refuses (checkArmBody node) s fun _ => True
  | .arm value body, _, ⟨h, _, hbody⟩, s, hs => by
      unfold checkArmBody
      exact refuses_inScope (refuses_checkAll body h.placed.2 hbody _ hs.push)

end

end Statements

section Programs

variable {s : CheckState} {has : Contents}

theorem decides_declaresMain {node : Node}
    (h : ∃ name parameters parameterTypes returnType body,
      node = function name parameters parameterTypes returnType body) :
    Decides (declaresMain node) fun _ => True := by
  obtain ⟨name, parameters, parameterTypes, returnType, body, rfl⟩ := h
  dsimp only [declaresMain]
  split
  · split
    · trivial
    · exact decides_reject _
  · trivial

theorem refuses_globals {nodes : List Node} (hs : s.scopes.IsTyped)
    (hnodes : ∀ g ∈ nodes, ∃ name typeName isMutable value,
      g = global name typeName isMutable value)
    (h : EveryOf (IsRegular has) nodes) : Refuses (checkAll nodes) s fun _ => True := by
  induction nodes generalizing s with
  | nil =>
      unfold checkAll
      exact refuses_pure hs trivial
  | cons node nodes ih =>
      unfold checkAll
      have hnode : IsExecuted node := by
        obtain ⟨_, _, _, _, rfl⟩ := hnodes node List.mem_cons_self
        trivial
      refine (refuses_check node hnode h.1 s hs).bind ?_
      intro _ s₁ hs₁ _
      refine (ih hs₁ (fun g hg => hnodes g (List.mem_cons_of_mem _ hg)) h.2).bind ?_
      intro _ s₂ hs₂ _
      exact refuses_pure hs₂ trivial

theorem refuses_checkFunctions {nodes : List Node} (hs : s.scopes.IsTyped)
    (hnodes : ∀ f ∈ nodes, ∃ name parameters parameterTypes returnType body,
      f = function name parameters parameterTypes returnType body)
    (h : EveryOf (IsRegular has) nodes) : Refuses (checkFunctions nodes) s fun _ => True := by
  induction nodes generalizing s with
  | nil => exact refuses_pure hs trivial
  | cons node nodes ih =>
      have hnode : IsExecuted node := by
        obtain ⟨_, _, _, _, _, rfl⟩ := hnodes node List.mem_cons_self
        trivial
      refine (refuses_lift hs (decides_declaresMain (hnodes node List.mem_cons_self))).bind ?_
      intro _ s₁ hs₁ _
      refine (refuses_check node hnode h.1 s₁ hs₁).bind ?_
      intro _ s₂ hs₂ _
      refine (ih hs₂ (fun f hf => hnodes f (List.mem_cons_of_mem _ hf)) h.2).bind ?_
      rintro ⟨_, _⟩ s₃ hs₃ _
      exact refuses_pure hs₃ trivial

/-- The check of a regular program in typed surroundings fails only at a broken rule. -/
theorem refuses_checkProgram {program : Node} (hprogram : program.IsProgram)
    (h : program.Every (IsRegular has)) (hs : s.scopes.IsTyped) :
    Refuses (checkProgram program) s fun _ => True := by
  cases program with
  | source globals functions =>
      obtain ⟨hnode, hglobals, hfunctions⟩ := h
      refine (refuses_note 1 _ hs).bind ?_
      intro _ s₁ hs₁ _
      refine (refuses_globals hs₁ hnode.placed.1 hglobals).bind ?_
      intro _ s₂ hs₂ _
      refine (refuses_checkFunctions hs₂ hnode.placed.2 hfunctions).bind ?_
      rintro ⟨hasMain, others⟩ s₃ hs₃ _
      dsimp only
      split
      · refine (refuses_note 1 _ hs₃).bind ?_
        intro _ s₄ hs₄ _
        exact refuses_pure hs₄ trivial
      · exact refuses_lift hs₃ (decides_reject _)
  | _ => exact hprogram.elim

end Programs

end Typing
end BlockScript
