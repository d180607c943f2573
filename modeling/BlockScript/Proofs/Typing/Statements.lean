import BlockScript.Proofs.Tree.Shape
import BlockScript.Proofs.Typing.Expressions
import BlockScript.Typing.Statement

/-!
# What checked statements are made of

One lemma for each kind of statement: what holds of its parts when it has been checked, and
how the state of the check goes on.  A declaration adds a variable to the current scope;
every other statement leaves the scopes as they are.
-/

namespace BlockScript

namespace CheckState

/-- A state with the same scopes, in the same function. -/
structure Same (c c' : CheckState) : Prop where
  scopes : c'.scopes = c.scopes
  enclosing : c'.enclosing = c.enclosing

/-- A state with the same scopes around the current one, in the same function. -/
structure Continues (c c' : CheckState) : Prop where
  outer : c'.scopes.outer = c.scopes.outer
  enclosing : c'.enclosing = c.enclosing

variable {c c' c'' : CheckState}

theorem Same.refl (c : CheckState) : Same c c := ⟨rfl, rfl⟩

theorem Same.trans (h : Same c c') (h' : Same c' c'') : Same c c'' :=
  ⟨h'.scopes.trans h.scopes, h'.enclosing.trans h.enclosing⟩

theorem Same.continues (h : Same c c') : Continues c c' :=
  ⟨by rw [h.scopes], h.enclosing⟩

theorem Continues.trans (h : Continues c c') (h' : Continues c' c'') : Continues c c'' :=
  ⟨h'.outer.trans h.outer, h'.enclosing.trans h.enclosing⟩

/-- Leaving what was entered and then continued comes back. -/
theorem Continues.leave (h : Continues c.enter c') : Same c c'.leave where
  scopes := by
    have houter := h.outer
    change c'.scopes.outer = c.scopes.current :: c.scopes.outer at houter
    change c'.scopes.pop = c.scopes
    unfold Chain.pop
    rw [houter]
  enclosing := h.enclosing

end CheckState

namespace Typing

open BlockScript.Computation CheckState

section Steps

variable {α : Type} {c c' : CheckState} {a : List Annotation}

theorem lift_eq_ok {r : Except CheckFailure α} {x : α}
    (h : (lift r : Checking α) c = (.ok x, c')) : r = .ok x ∧ c' = c := by
  cases r with
  | ok y =>
      cases h
      exact ⟨rfl, rfl⟩
  | error e => cases h

theorem state_bind_eq_ok {next : CheckState → Checking α} {x : α}
    (h : (state >>= next) c = (.ok x, c')) : next c c = (.ok x, c') := h

theorem lift_bind_eq_ok {β : Type} {r : Except CheckFailure α} {next : α → Checking β} {y : β}
    (h : (lift r >>= next) c = (.ok y, c')) : ∃ x, r = .ok x ∧ next x c = (.ok y, c') := by
  obtain ⟨x, c₁, hx, hnext⟩ := bind_eq_ok.mp h
  obtain ⟨hr, hc⟩ := lift_eq_ok hx
  rw [hc] at hnext
  exact ⟨x, hr, hnext⟩

theorem typeHere_bind_eq_ok {β : Type} {expected : Option StaticType} {node : Node}
    {next : Typed → Checking β} {y : β} (h : (typeHere expected node >>= next) c = (.ok y, c')) :
    ∃ found, typeOf c.scopes expected node = .ok found ∧ next found c = (.ok y, c') := by
  obtain ⟨found, c₁, hfound, hnext⟩ := bind_eq_ok.mp h
  obtain ⟨htype, hc⟩ : typeOf c.scopes expected node = .ok found ∧ c₁ = c := lift_eq_ok hfound
  rw [hc] at hnext
  exact ⟨found, htype, hnext⟩

theorem inScope_eq_ok {m : Checking α} {x : α} (h : inScope m c = (.ok x, c')) :
    ∃ c₁, m c.enter = (.ok x, c₁) ∧ c' = c₁.leave := by
  have hafter : (m.afterwards CheckState.leave) c.enter = (.ok x, c') := h
  rw [afterwards_apply] at hafter
  cases hm : m c.enter with
  | mk r c₁ =>
      rw [hm] at hafter
      cases hafter
      exact ⟨c₁, rfl, rfl⟩

theorem bindVariable_eq_ok {v : Variable} {u : Unit}
    (h : bindVariable v c = (.ok u, c')) :
    v.name.isBindable = true ∧ c.scopes.current.findVariable? v.name = none ∧
      c' = { c with scopes := { c.scopes with current :=
        { c.scopes.current with vars := v :: c.scopes.current.vars } } } := by
  obtain ⟨scopes, hbound, hchange⟩ := lift_bind_eq_ok h
  obtain ⟨hname, hdefine⟩ := boundUnder_eq_ok hbound
  unfold Chain.defineVariable Scope.defineVariable at hdefine
  cases hfind : c.scopes.current.findVariable? v.name with
  | some w =>
      rw [hfind] at hdefine
      cases hdefine
  | none =>
      rw [hfind] at hdefine
      cases hdefine
      cases hchange
      exact ⟨hname, rfl, rfl⟩

theorem bindFunction_eq_ok {f : Function} {u : Unit}
    (h : bindFunction f c = (.ok u, c')) :
    f.name.isBindable = true ∧ c.scopes.current.findFunction? f.name f.arity = none ∧
      c' = { c with scopes :=
        { c.scopes with current :=
          { c.scopes.current with functions := f :: c.scopes.current.functions } } } := by
  obtain ⟨scopes, hbound, hchange⟩ := lift_bind_eq_ok h
  obtain ⟨hname, hdefine⟩ := boundUnder_eq_ok hbound
  unfold Chain.defineFunction Scope.defineFunction at hdefine
  cases hfind : c.scopes.current.findFunction? f.name f.arity with
  | some g =>
      rw [hfind] at hdefine
      cases hdefine
  | none =>
      rw [hfind] at hdefine
      cases hdefine
      cases hchange
      exact ⟨hname, rfl, rfl⟩

end Steps

section Declarations

variable {c c' : CheckState} {a : List Annotation} {name typeName : Name} {value : Node}

/-- How a declaration comes to the type of its variable. -/
inductive DeclaredAs (scopes : Chain) (typeName : Name) (value : Node) : Typed → Prop
  | inferred {found : Typed} : value.isAbsent = false → typeOf scopes none value = .ok found →
      DeclaredAs scopes typeName value found
  | bare {type : StaticType} : typeNamed typeName = .ok type → value.isAbsent = true →
      DeclaredAs scopes typeName value ⟨some type, []⟩
  | given {type : StaticType} {found : Typed} : typeNamed typeName = .ok type →
      value.isAbsent = false → typeOf scopes (some type) value = .ok found →
      StaticType.accepts (some type) found.type = true →
      DeclaredAs scopes typeName value ⟨some type, found.annotations⟩

theorem declaredType_eq_ok {found : Typed}
    (h : declaredType name typeName value c = (.ok found, c')) :
    DeclaredAs c.scopes typeName value found ∧ c' = c := by
  unfold declaredType at h
  split at h
  · split at h
    · cases h
    · rename_i habsent
      obtain ⟨hfound, hc⟩ : typeOf c.scopes none value = .ok found ∧ c' = c := lift_eq_ok h
      exact ⟨.inferred (by simpa using habsent) hfound, hc⟩
  · obtain ⟨type, htype, hrest⟩ := lift_bind_eq_ok h
    split at hrest
    · rename_i habsent
      cases hrest
      exact ⟨.bare htype habsent, rfl⟩
    · rename_i habsent
      obtain ⟨part, hpart, hrest⟩ := typeHere_bind_eq_ok hrest
      obtain ⟨u, haccepts, hrest⟩ := lift_bind_eq_ok hrest
      cases hrest
      exact ⟨.given htype (by simpa using habsent) hpart
        (accepts_of_requireAssignable haccepts), rfl⟩

theorem text_of_typeNamed {type : StaticType} (h : typeNamed name = .ok type) :
    name.text = type.name := by
  unfold typeNamed at h
  split at h
  · split at h
    · rename_i found hfound
      cases h
      unfold StaticType.ofName? at hfound
      have hname := List.find?_some hfound
      rw [beq_iff_eq] at hname
      exact hname.symm
    · cases h
  · cases h

/-- The variable of a declaration whose type is found. -/
def declaredVariable (name : Name) (isMutable : Bool) (found : Typed) : Variable :=
  ⟨name, name, found.type, isMutable, .nil⟩

/-- The current scope has one variable more. -/
structure Adds (v : Variable) (c c' : CheckState) : Prop where
  isNew : c.scopes.current.findVariable? v.name = none
  scopes : c'.scopes =
    { c.scopes with current := { c.scopes.current with vars := v :: c.scopes.current.vars } }
  enclosing : c'.enclosing = c.enclosing

theorem Adds.continues {v : Variable} (h : Adds v c c') : Continues c c' :=
  ⟨by rw [h.scopes], h.enclosing⟩

theorem declare_eq_ok {node : Node} {verb : String} {isMutable : Bool}
    (h : declare node verb name typeName isMutable value c = (.ok a, c')) :
    ∃ found, DeclaredAs c.scopes typeName value found ∧ name.isBindable = true ∧
      Adds (declaredVariable name isMutable found) c c' ∧
      a = ⟨node, .declaration (declaredVariable name isMutable found)⟩ :: found.annotations := by
  unfold declare at h
  obtain ⟨found, c₁, hfound, hrest⟩ := bind_eq_ok.mp h
  obtain ⟨hdeclared, hc₁⟩ := declaredType_eq_ok hfound
  rw [hc₁] at hrest
  obtain ⟨u, c₂, hbind, hrest⟩ := bind_eq_ok.mp hrest
  obtain ⟨hname, hnone, hc₂⟩ := bindVariable_eq_ok hbind
  obtain ⟨type, _, hrest⟩ := lift_bind_eq_ok hrest
  cases hrest
  rw [hc₂]
  exact ⟨found, hdeclared, hname, ⟨hnone, rfl, rfl⟩, rfl⟩

end Declarations

section Statements

variable {c c' : CheckState} {a : List Annotation}

theorem assignment_eq_ok {target value : Node}
    (h : assignment target value c = (.ok a, c')) :
    c' = c ∧ ∃ name offset v place found, target = .access name offset ∧
      typeOf c.scopes none (.access name offset) = .ok place ∧
      c.scopes.lookupVariable name = .ok v ∧ v.isMutable = true ∧
      typeOf c.scopes v.type value = .ok found ∧
      StaticType.accepts v.type found.type = true ∧
      a = place.annotations ++ found.annotations := by
  unfold assignment at h
  obtain ⟨place, hplace, h⟩ := typeHere_bind_eq_ok h
  obtain ⟨finding, others, hhead, _⟩ := typeOf_head hplace
  rw [hhead, List.head?_cons, Option.bind_some] at h
  cases target with
  | access name offset =>
      obtain ⟨others', v, hoffset, hname, hv, rfl⟩ := typeOf_access hplace
      cases hhead
      dsimp only [Finding.boundVariable?] at h
      split at h
      · rename_i hmutable
        obtain ⟨found, hfound, h⟩ := typeHere_bind_eq_ok h
        obtain ⟨u, haccepts, h⟩ := lift_bind_eq_ok h
        cases h
        exact ⟨rfl, name, offset, v, _, found, rfl, hplace, hv, hmutable, hfound,
          accepts_of_requireAssignable haccepts, rfl⟩
      · cases h
  | literal value =>
      obtain ⟨_, _, rfl⟩ := typeOf_literal hplace
      cases hhead
      cases h
  | group inner =>
      obtain ⟨_, _, rfl⟩ := typeOf_group hplace
      cases hhead
      cases h
  | binary operator left right =>
      obtain ⟨_, _, _, _, _, _, rfl⟩ := typeOf_binary hplace
      cases hhead
      cases h
  | call name arguments =>
      obtain ⟨_, _, _, _, _, rfl⟩ := typeOf_call hplace
      cases hhead
      cases h
  | list elements =>
      obtain ⟨_, _, rfl⟩ := typeOf_list hplace
      cases hhead
      cases h
  | _ =>
      unfold typeOf at hplace
      cases hplace

theorem condition_bind_eq_ok {α : Type} {statement : String} {node : Node}
    {next : List Annotation → Checking α} {x : α}
    (h : (condition statement node >>= next) c = (.ok x, c')) :
    ∃ found, typeOf c.scopes none node = .ok found ∧ found.type = some .boolean ∧
      next found.annotations c = (.ok x, c') := by
  obtain ⟨annotations, c₁, hcondition, hnext⟩ := bind_eq_ok.mp h
  unfold condition at hcondition
  obtain ⟨found, hfound, hdecide⟩ := typeHere_bind_eq_ok hcondition
  split at hdecide
  · rename_i htype
    cases hdecide
    exact ⟨found, hfound, htype, hnext⟩
  · exact absurd (lift_eq_ok hdecide).1 rejectNaming_ne_ok

theorem requireReturn_eq_ok {f : Function} {type : Option StaticType} {u : Unit}
    (h : requireReturn f type = .ok u) : type = some f.returnType := by
  unfold requireReturn at h
  split at h
  · assumption
  · exact absurd h rejectNaming_ne_ok

theorem returning_eq_ok {value : Node} (h : returning value c = (.ok a, c')) :
    c' = c ∧ ∃ f, c.enclosing = some f ∧
      (value.isAbsent = true ∧ f.returnType = .nil ∧ a = [] ∨
        value.isAbsent = false ∧ ∃ found, typeOf c.scopes none value = .ok found ∧
          found.type = some f.returnType ∧ a = found.annotations) := by
  unfold returning at h
  have h := state_bind_eq_ok h
  cases henclosing : c.enclosing with
  | none =>
      rw [henclosing] at h
      cases h
  | some f =>
      rw [henclosing] at h
      dsimp only at h
      split at h
      · rename_i habsent
        obtain ⟨u, hreturn, h⟩ := lift_bind_eq_ok h
        cases h
        have htype := requireReturn_eq_ok hreturn
        exact ⟨rfl, f, rfl, Or.inl ⟨habsent, (Option.some.inj htype).symm, rfl⟩⟩
      · rename_i habsent
        obtain ⟨found, hfound, h⟩ := typeHere_bind_eq_ok h
        obtain ⟨u, hreturn, h⟩ := lift_bind_eq_ok h
        cases h
        exact ⟨rfl, f, rfl, Or.inr ⟨by simpa using habsent, found, hfound,
          requireReturn_eq_ok hreturn, rfl⟩⟩

theorem conditional_eq_ok {test : Node} {thenBody elseBody : List Node}
    (h : check (.conditional test thenBody elseBody) c = (.ok a, c')) :
    ∃ found c₁ inThen inElse, typeOf c.scopes none test = .ok found ∧
      found.type = some .boolean ∧ inScope (checkAll thenBody) c = (.ok inThen, c₁) ∧
      inScope (checkAll elseBody) c₁ = (.ok inElse, c') ∧
      a = found.annotations ++ inThen ++ inElse := by
  unfold check at h
  obtain ⟨found, hfound, htype, h⟩ := condition_bind_eq_ok h
  split at h
  · cases h
  · obtain ⟨inThen, c₁, hthen, h⟩ := bind_eq_ok.mp h
    obtain ⟨inElse, c₂, helse, h⟩ := bind_eq_ok.mp h
    cases h
    exact ⟨found, c₁, inThen, inElse, hfound, htype, hthen, helse, rfl⟩

theorem loop_eq_ok {test : Node} {body : List Node}
    (h : check (.loop test body) c = (.ok a, c')) :
    ∃ found inBody, typeOf c.scopes none test = .ok found ∧ found.type = some .boolean ∧
      inScope (checkAll body) c = (.ok inBody, c') ∧ a = found.annotations ++ inBody := by
  unfold check at h
  obtain ⟨found, hfound, htype, h⟩ := condition_bind_eq_ok h
  obtain ⟨inBody, c₁, hbody, h⟩ := bind_eq_ok.mp h
  cases h
  exact ⟨found, inBody, hfound, htype, hbody, rfl⟩

theorem switch_eq_ok {test : Node} {arms : List Node}
    (h : check (.switch test arms) c = (.ok a, c')) :
    ∃ found inArms, typeOf c.scopes none test = .ok found ∧
      checkArms found.type 0 arms c = (.ok inArms, c') ∧ a = found.annotations ++ inArms := by
  unfold check at h
  obtain ⟨found, hfound, h⟩ := typeHere_bind_eq_ok h
  obtain ⟨inArms, c₂, harms, h⟩ := bind_eq_ok.mp h
  cases h
  exact ⟨found, inArms, hfound, harms, rfl⟩

theorem arm_eq_ok {value : Node} {body : List Node}
    (h : check (.arm value body) c = (.ok a, c')) :
    ∃ others inBody, inScope (checkAll body) c = (.ok inBody, c') ∧ a = others ++ inBody := by
  unfold check at h
  obtain ⟨others, c₁, hvalue, h⟩ := bind_eq_ok.mp h
  obtain ⟨inBody, c₂, hbody, h⟩ := bind_eq_ok.mp h
  cases h
  have hsame : c₁ = c := by
    unfold optionalExpression at hvalue
    split at hvalue
    · cases hvalue
      rfl
    · obtain ⟨found, _, hvalue⟩ := typeHere_bind_eq_ok hvalue
      cases hvalue
      rfl
  subst hsame
  exact ⟨others, inBody, hbody, rfl⟩

theorem evaluation_eq_ok {expression : Node}
    (h : check (.evaluation expression) c = (.ok a, c')) :
    c' = c ∧ ∃ found, typeOf c.scopes none expression = .ok found ∧ a = found.annotations := by
  unfold check at h
  obtain ⟨found, hfound, h⟩ := typeHere_bind_eq_ok h
  cases h
  exact ⟨rfl, found, hfound, rfl⟩

theorem checkAll_cons {node : Node} {nodes : List Node}
    (h : checkAll (node :: nodes) c = (.ok a, c')) :
    ∃ found others c₁, check node c = (.ok found, c₁) ∧ checkAll nodes c₁ = (.ok others, c') ∧
      a = found ++ others := by
  unfold checkAll at h
  obtain ⟨found, c₁, hnode, h⟩ := bind_eq_ok.mp h
  obtain ⟨others, c₂, hnodes, h⟩ := bind_eq_ok.mp h
  cases h
  exact ⟨found, others, c₁, hnode, hnodes, rfl⟩

/-- What is known of the value of a case: it is left out in the last case, and otherwise a
literal of the type of the condition. -/
inductive ArmValue (scopes : Chain) (type : Option StaticType) (isLast : Bool) :
    Node → List Annotation → Prop
  | last : isLast = true → ArmValue scopes type isLast .absent []
  | literal {value : Scalar} {found : Typed} : isLast = false →
      typeOf scopes none (.literal value) = .ok found → found.type = type →
      ArmValue scopes type isLast (.literal value) found.annotations

theorem lastCaseValue_eq_ok {value : Node} {body : List Node}
    (h : lastCaseValue (.arm value body) c = (.ok a, c')) :
    value = .absent ∧ a = [] ∧ c' = c := by
  unfold lastCaseValue at h
  dsimp only [Node.valuePart] at h
  cases value with
  | absent =>
      cases h
      exact ⟨rfl, rfl, rfl⟩
  | _ => cases h

theorem caseValue_eq_ok {type : Option StaticType} {position : Nat} {value : Node}
    {body : List Node} (h : caseValue type position (.arm value body) c = (.ok a, c')) :
    c' = c ∧ ∃ s found, value = .literal s ∧ typeOf c.scopes none (.literal s) = .ok found ∧
      found.type = type ∧ a = found.annotations := by
  unfold caseValue at h
  dsimp only [Node.valuePart] at h
  cases value with
  | literal s =>
      dsimp only at h
      obtain ⟨found, hfound, h⟩ := typeHere_bind_eq_ok h
      split at h
      · rename_i htype
        cases h
        exact ⟨rfl, s, found, rfl, hfound, htype, rfl⟩
      · exact absurd (lift_eq_ok h).1 rejectNaming_ne_ok
  | _ => cases h

theorem checkArms_cons {type : Option StaticType} {position : Nat} {arm : Node}
    {arms : List Node} (h : checkArms type position (arm :: arms) c = (.ok a, c')) :
    ∃ value body found inBody others c₁, arm = .arm value body ∧
      ArmValue c.scopes type arms.isEmpty value found ∧
      inScope (checkAll body) c = (.ok inBody, c₁) ∧
      checkArms type (position + 1) arms c₁ = (.ok others, c') ∧
      a = found ++ inBody ++ others := by
  have hparts : ∃ found c₀, (if arms.isEmpty then lastCaseValue arm
      else caseValue type position arm) c = (.ok found, c₀) ∧
      ∃ inBody c₁, checkArmBody arm c₀ = (.ok inBody, c₁) ∧
        ∃ others, checkArms type (position + 1) arms c₁ = (.ok others, c') ∧
          a = found ++ inBody ++ others := by
    unfold checkArms at h
    dsimp only at h
    split at h
    · rename_i hlast
      obtain ⟨found, c₀, hfound, h⟩ := bind_eq_ok.mp h
      obtain ⟨inBody, c₁, hbody, h⟩ := bind_eq_ok.mp h
      obtain ⟨others, c₂, hothers, h⟩ := bind_eq_ok.mp h
      cases h
      rw [if_pos hlast]
      exact ⟨found, c₀, hfound, inBody, c₁, hbody, others, hothers, rfl⟩
    · rename_i hlast
      obtain ⟨found, c₀, hfound, h⟩ := bind_eq_ok.mp h
      obtain ⟨inBody, c₁, hbody, h⟩ := bind_eq_ok.mp h
      obtain ⟨others, c₂, hothers, h⟩ := bind_eq_ok.mp h
      cases h
      rw [if_neg hlast]
      exact ⟨found, c₀, hfound, inBody, c₁, hbody, others, hothers, rfl⟩
  obtain ⟨found, c₀, hfound, inBody, c₁, hbody, others, hothers, rfl⟩ := hparts
  cases arm with
  | arm value body =>
      unfold checkArmBody at hbody
      split at hfound
      · rename_i hlast
        obtain ⟨rfl, rfl, rfl⟩ := lastCaseValue_eq_ok hfound
        exact ⟨.absent, body, [], inBody, others, c₁, rfl, .last hlast, hbody, hothers, rfl⟩
      · rename_i hlast
        obtain ⟨rfl, s, part, rfl, hpart, htype, rfl⟩ := caseValue_eq_ok hfound
        exact ⟨.literal s, body, part.annotations, inBody, others, c₁, rfl,
          .literal (by simpa using hlast) hpart htype, hbody, hothers, rfl⟩
  | _ =>
      unfold checkArmBody at hbody
      cases hbody

end Statements

section Continuing

variable {c c' : CheckState} {a : List Annotation}

theorem inScope_leave {body : List Node}
    (hbody : ∀ c₁, checkAll body c.enter = (.ok a, c₁) → Continues c.enter c₁)
    (h : inScope (checkAll body) c = (.ok a, c')) : Same c c' := by
  obtain ⟨c₁, hcheck, rfl⟩ := inScope_eq_ok h
  exact (hbody c₁ hcheck).leave

mutual

/-- Behind a statement the scopes around the current one are the same. -/
theorem check_continues : ∀ {node : Node} {c c' : CheckState} {a : List Annotation},
    node.Every Node.IsInner → check node c = (.ok a, c') → Continues c c'
  | .evaluation _, c, _, _, _, h => by
      obtain ⟨rfl, _⟩ := evaluation_eq_ok h
      exact (Same.refl _).continues
  | .declaration _ _ _, _, _, _, _, h => by
      unfold check at h
      obtain ⟨found, _, _, hadds, _⟩ := declare_eq_ok h
      exact hadds.continues
  | .assignment _ _, _, _, _, _, h => by
      unfold check at h
      obtain ⟨rfl, _⟩ := assignment_eq_ok h
      exact (Same.refl _).continues
  | .conditional _ _ _, _, _, _, ⟨_, _, hthen, helse⟩, h => by
      obtain ⟨_, _, _, _, _, _, hthenBody, helseBody, _⟩ := conditional_eq_ok h
      have hsame := inScope_leave (fun _ => checkAll_continues hthen) hthenBody
      exact (hsame.trans (inScope_leave (fun _ => checkAll_continues helse) helseBody)).continues
  | .loop _ _, _, _, _, ⟨_, _, hbody⟩, h => by
      obtain ⟨_, _, _, _, hcheck, _⟩ := loop_eq_ok h
      exact (inScope_leave (fun _ => checkAll_continues hbody) hcheck).continues
  | .switch _ _, _, _, _, ⟨_, _, harms⟩, h => by
      obtain ⟨_, _, _, hcheck, _⟩ := switch_eq_ok h
      exact (checkArms_same harms hcheck).continues
  | .arm _ _, _, _, _, ⟨_, _, hbody⟩, h => by
      obtain ⟨_, _, hcheck, _⟩ := arm_eq_ok h
      exact (inScope_leave (fun _ => checkAll_continues hbody) hcheck).continues
  | .returning _, _, _, _, _, h => by
      unfold check at h
      obtain ⟨rfl, _⟩ := returning_eq_ok h
      exact (Same.refl _).continues
  | .source _ _, _, _, _, hinner, _ => hinner.1.elim
  | .global _ _ _ _, _, _, _, hinner, _ => hinner.1.elim
  | .function _ _ _ _ _, _, _, _, hinner, _ => hinner.1.elim
  | .absent, _, _, _, _, h | .literal _, _, _, _, _, h | .group _, _, _, _, _, h
  | .binary _ _ _, _, _, _, _, h | .access _ _, _, _, _, _, h | .call _ _, _, _, _, _, h
  | .list _, _, _, _, _, h => by
      unfold check at h
      cases h

theorem checkAll_continues : ∀ {nodes : List Node} {c c' : CheckState} {a : List Annotation},
    Node.EveryOf Node.IsInner nodes → checkAll nodes c = (.ok a, c') → Continues c c'
  | [], _, _, _, _, h => by
      cases h
      exact (Same.refl _).continues
  | _ :: _, _, _, _, ⟨hnode, hnodes⟩, h => by
      obtain ⟨_, _, _, hfirst, hothers, _⟩ := checkAll_cons h
      exact (check_continues hnode hfirst).trans (checkAll_continues hnodes hothers)

theorem checkArms_same : ∀ {arms : List Node} {type : Option StaticType} {position : Nat}
    {c c' : CheckState} {a : List Annotation}, Node.EveryOf Node.IsInner arms →
    checkArms type position arms c = (.ok a, c') → Same c c'
  | [], _, _, _, _, _, _, h => by
      cases h
      exact Same.refl _
  | _ :: _, _, _, _, _, _, ⟨harm, harms⟩, h => by
      obtain ⟨_, _, _, _, _, _, rfl, _, hbody, hothers, _⟩ := checkArms_cons h
      have hsame := inScope_leave (fun _ => checkAll_continues harm.2.2) hbody
      exact hsame.trans (checkArms_same harms hothers)

end

/-- Behind a body that is checked in a scope of its own the scopes are the same. -/
theorem inScope_same {body : List Node} (hbody : Node.EveryOf Node.IsInner body)
    (h : inScope (checkAll body) c = (.ok a, c')) : Same c c' :=
  inScope_leave (fun _ => checkAll_continues hbody) h

end Continuing

end Typing
end BlockScript
