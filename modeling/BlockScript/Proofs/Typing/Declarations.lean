import BlockScript.Proofs.Typing.Statements
import BlockScript.Typing.Program
import Mathlib.Data.List.Forall2

/-!
# What checked declarations are made of

A global adds a variable to the outermost scope and a function adds itself.  The body of a
function is checked in a scope of its own, where its parameters are bound; behind it the
scopes are those around it.
-/

namespace BlockScript

/-- The scope with one function more. -/
def Scope.withFunction (s : Scope) (f : Function) : Scope :=
  { s with functions := f :: s.functions }

namespace Typing

open BlockScript.Computation CheckState

/-- Goes to the first statement of a function: its signature is made, the function is bound,
and its parameters are bound in a scope of their own. -/
def enterBody (name : Name) (parameters parameterTypes : List Name) (returnType : Name)
    (body : List Node) : Checking Function := do
  let f ← lift (signature name parameters parameterTypes returnType body)
  bindFunction f
  note 1 ("function " ++ ScopeFault.signature name.text f.arity)
  change (CheckState.enterFunction f)
  bindParameters parameters f.parameterTypes
  return f

section Parameters

variable {c c' : CheckState}

theorem bindParameters_cons {name : Name} {names : List Name} {type : StaticType}
    {types : List StaticType} {u : Unit}
    (h : bindParameters (name :: names) (type :: types) c = (.ok u, c')) :
    ∃ c₁, name.isBindable = true ∧ Adds ⟨name, name, some type, true, .nil⟩ c c₁ ∧
      bindParameters names types c₁ = (.ok u, c') := by
  obtain ⟨_, c₁, hbind, hrest⟩ := bind_eq_ok.mp h
  obtain ⟨hname, hnone, hc₁⟩ := bindVariable_eq_ok hbind
  exact ⟨c₁, hname, ⟨hnone, by rw [hc₁], by rw [hc₁]⟩, hrest⟩

theorem bindParameters_continues {names : List Name} {types : List StaticType} {u : Unit}
    (h : bindParameters names types c = (.ok u, c')) : Continues c c' := by
  induction names generalizing types c with
  | nil =>
      cases h
      exact (Same.refl _).continues
  | cons name names ih =>
      cases types with
      | nil =>
          cases h
          exact (Same.refl _).continues
      | cons type types =>
          obtain ⟨c₁, _, hadds, hrest⟩ := bindParameters_cons h
          exact hadds.continues.trans (ih hrest)

end Parameters

section Signatures

variable {name returnType : Name} {parameters parameterTypes : List Name} {body : List Node}
  {f : Function}

theorem typeNamedOr_eq_ok {otherwise type : StaticType}
    (h : typeNamedOr otherwise name = .ok type) :
    name.isMissing = true ∧ type = otherwise ∨
      name.isMissing = false ∧ typeNamed name = .ok type := by
  unfold typeNamedOr at h
  split at h
  · rename_i hmissing
    cases h
    exact Or.inl ⟨hmissing, rfl⟩
  · rename_i hmissing
    exact Or.inr ⟨by simpa using hmissing, h⟩

theorem mapM_eq_ok {ε α β : Type} {g : α → Except ε β} {as : List α} {bs : List β}
    (h : as.mapM g = .ok bs) : List.Forall₂ (fun a b => g a = .ok b) as bs := by
  induction as generalizing bs with
  | nil =>
      cases h
      exact .nil
  | cons a as ih =>
      rw [List.mapM_cons] at h
      obtain ⟨b, hb, h⟩ := except_bind_eq_ok.mp h
      obtain ⟨bs', hbs, h⟩ := except_bind_eq_ok.mp h
      cases h
      exact .cons hb (ih hbs)

theorem signature_eq_ok (h : signature name parameters parameterTypes returnType body = .ok f) :
    f.name = name ∧ f.action = .declared parameters body ∧
      List.Forall₂ (fun typeName type => typeNamedOr .any typeName = .ok type) parameterTypes
        f.parameterTypes ∧
      typeNamedOr .nil returnType = .ok f.returnType := by
  unfold signature at h
  obtain ⟨types, htypes, h⟩ := except_bind_eq_ok.mp h
  obtain ⟨type, htype, h⟩ := except_bind_eq_ok.mp h
  cases h
  exact ⟨rfl, rfl, mapM_eq_ok htypes, htype⟩

end Signatures

section Functions

variable {c c' : CheckState} {a : List Annotation} {name returnType : Name}
  {parameters parameterTypes : List Name} {body : List Node}

theorem enterBody_eq_ok {f : Function} {entry : CheckState}
    (h : enterBody name parameters parameterTypes returnType body c = (.ok f, entry)) :
    signature name parameters parameterTypes returnType body = .ok f ∧
      f.name.isBindable = true ∧ c.scopes.current.findFunction? f.name f.arity = none ∧
      ∃ c₁, c₁.scopes = ⟨.empty, c.scopes.current.withFunction f :: c.scopes.outer⟩ ∧
        c₁.enclosing = some f ∧
        bindParameters parameters f.parameterTypes c₁ = (.ok (), entry) := by
  unfold enterBody at h
  obtain ⟨g, hsignature, h⟩ := lift_bind_eq_ok h
  obtain ⟨_, c₁, hbind, h⟩ := bind_eq_ok.mp h
  obtain ⟨hname, hnone, hc₁⟩ := bindFunction_eq_ok hbind
  obtain ⟨_, c₂, hnote, h⟩ := bind_eq_ok.mp h
  cases hnote
  obtain ⟨_, c₃, henter, h⟩ := bind_eq_ok.mp h
  cases henter
  obtain ⟨_, c₄, hparameters, h⟩ := bind_eq_ok.mp h
  cases h
  rw [hc₁] at hparameters
  exact ⟨hsignature, hname, hnone, _, rfl, rfl, hparameters⟩

theorem function_eq_ok
    (h : check (.function name parameters parameterTypes returnType body) c = (.ok a, c')) :
    ∃ f entry inBody c₁,
      enterBody name parameters parameterTypes returnType body c = (.ok f, entry) ∧
      checkAll body entry = (.ok inBody, c₁) ∧ c' = c₁.leaveFunction ∧
      a = ⟨.function name parameters parameterTypes returnType body, .function f⟩ :: inBody := by
  unfold check at h
  obtain ⟨f, hsignature, h⟩ := lift_bind_eq_ok h
  obtain ⟨_, c₁, hbind, h⟩ := bind_eq_ok.mp h
  obtain ⟨_, c₂, hnote, h⟩ := bind_eq_ok.mp h
  obtain ⟨inBody, c₃, hbody, h⟩ := bind_eq_ok.mp h
  cases h
  have hafter : ((bindParameters parameters f.parameterTypes >>= fun _ => checkAll body).afterwards
      CheckState.leaveFunction) (c₂.enterFunction f) = (.ok inBody, c') := hbody
  rw [afterwards_apply] at hafter
  cases hinner : (bindParameters parameters f.parameterTypes >>= fun _ => checkAll body)
      (c₂.enterFunction f) with
  | mk r c₄ =>
      rw [hinner] at hafter
      cases hafter
      obtain ⟨_, entry, hparameters, hcheck⟩ := bind_eq_ok.mp hinner
      refine ⟨f, entry, inBody, c₄, ?_, hcheck, rfl, rfl⟩
      unfold enterBody
      rw [hsignature]
      refine bind_eq_ok.mpr ⟨f, c, rfl, bind_eq_ok.mpr ⟨_, c₁, hbind, ?_⟩⟩
      refine bind_eq_ok.mpr ⟨_, c₂, hnote, bind_eq_ok.mpr ⟨_, _, rfl, ?_⟩⟩
      exact bind_eq_ok.mpr ⟨_, entry, hparameters, rfl⟩

/-- Behind a function the scopes are those around it, the function being bound. -/
theorem function_scopes (hbody : Node.EveryOf Node.IsInner body)
    (h : check (.function name parameters parameterTypes returnType body) c = (.ok a, c')) :
    ∃ f entry, enterBody name parameters parameterTypes returnType body c = (.ok f, entry) ∧
      c'.scopes = ⟨c.scopes.current.withFunction f, c.scopes.outer⟩ := by
  obtain ⟨f, entry, inBody, c₁, henter, hcheck, rfl, _⟩ := function_eq_ok h
  obtain ⟨_, _, _, c₂, hscopes, _, hparameters⟩ := enterBody_eq_ok henter
  refine ⟨f, entry, henter, ?_⟩
  have houter : c₁.scopes.outer = c.scopes.current.withFunction f :: c.scopes.outer := by
    rw [(checkAll_continues hbody hcheck).outer, (bindParameters_continues hparameters).outer,
      hscopes]
  change c₁.scopes.pop = _
  unfold Chain.pop
  rw [houter]

end Functions

section Programs

variable {c c' : CheckState} {a : List Annotation}

theorem global_eq_ok {name typeName : Name} {isMutable : Bool} {value : Node}
    (h : check (.global name typeName isMutable value) c = (.ok a, c')) :
    ∃ found, DeclaredAs c.scopes typeName value found ∧ name.isBindable = true ∧
      Adds (declaredVariable name isMutable found) c c' ∧
      a = ⟨.global name typeName isMutable value,
        .declaration (declaredVariable name isMutable found)⟩ :: found.annotations := by
  unfold check at h
  exact declare_eq_ok h

theorem declaresMain_eq_true {node : Node} (h : declaresMain node = .ok true) :
    ∃ parameterTypes body,
      node = .function "main" [] parameterTypes (StaticType.integer.name) body := by
  unfold declaresMain at h
  split at h
  · split at h
    · rename_i hmain
      obtain ⟨rfl, rfl⟩ := hmain
      split at h
      · rename_i htype
        subst htype
        exact ⟨_, _, rfl⟩
      · cases h
    · cases h
  · split at h
    · split at h <;> cases h
    · cases h

theorem checkFunctions_cons {node : Node} {nodes : List Node} {hasMain : Bool}
    (h : checkFunctions (node :: nodes) c = (.ok (hasMain, a), c')) :
    ∃ isMain found hasMain' others c₁, declaresMain node = .ok isMain ∧
      check node c = (.ok found, c₁) ∧ checkFunctions nodes c₁ = (.ok (hasMain', others), c') ∧
      hasMain = (isMain || hasMain') ∧ a = found ++ others := by
  unfold checkFunctions at h
  obtain ⟨isMain, hmain, h⟩ := lift_bind_eq_ok h
  obtain ⟨found, c₁, hnode, h⟩ := bind_eq_ok.mp h
  obtain ⟨⟨hasMain', others⟩, c₂, hnodes, h⟩ := bind_eq_ok.mp h
  cases h
  exact ⟨isMain, found, hasMain', others, c₁, hmain, hnode, hnodes, rfl, rfl⟩

/-- The state that the first declaration of a program is checked from. -/
def opening (surroundings : List Scope) (trace : Trace) : CheckState :=
  { CheckState.start surroundings trace with trace := trace.note 1 "analyze: start" }

theorem checkProgram_eq_ok {surroundings : List Scope} {trace : Trace} {program : Node}
    (h : BlockScript.checkProgram surroundings trace program = (.ok a, c')) :
    ∃ globals functions found others c₁ c₂, program = .source globals functions ∧
      checkAll globals (opening surroundings trace) = (.ok found, c₁) ∧
      checkFunctions functions c₁ = (.ok (true, others), c₂) ∧ a = found ++ others ∧
      c'.scopes = c₂.scopes := by
  unfold BlockScript.checkProgram checkProgram at h
  obtain ⟨_, c₀, hnote, h⟩ := bind_eq_ok.mp h
  cases hnote
  cases program with
  | source globals functions =>
      obtain ⟨found, c₁, hglobals, h⟩ := bind_eq_ok.mp h
      obtain ⟨⟨hasMain, others⟩, c₂, hfunctions, h⟩ := bind_eq_ok.mp h
      cases hasMain with
      | true =>
          obtain ⟨_, c₃, hdone, h⟩ := bind_eq_ok.mp h
          cases hdone
          cases h
          exact ⟨globals, functions, found, others, c₁, c₂, rfl, hglobals, hfunctions, rfl, rfl⟩
      | false => cases h
  | _ => cases h

end Programs

end Typing
end BlockScript
