import BlockScript.Proofs.Agreement.Statements

/-!
# Programs agree with their check

The declarations of a program build up its root, in the text as in the machine, and behind
them every function of the root is checked.  The run of a program that was checked therefore
keeps to its discipline: `main` is there, and comes to a value of its type.
-/

namespace BlockScript

namespace Node

/-- The names of the globals of a program. -/
def globalNames : Node → List Name
  | source globals _ => globals.filterMap name?
  | _ => []

/-- A local variable or a parameter has one of the names. -/
def Hides (names : List Name) : Node → Prop
  | declaration name _ _ => name ∈ names
  | function _ parameters _ _ _ => ∃ p ∈ parameters, p ∈ names
  | _ => False

instance (names : List Name) : DecidablePred (Hides names)
  | declaration name _ _ => inferInstanceAs (Decidable (name ∈ names))
  | function _ parameters _ _ _ => inferInstanceAs (Decidable (∃ p ∈ parameters, p ∈ names))
  | absent | source _ _ | literal _ | group _ | binary _ _ _ | call _ _ | evaluation _
  | returning _ | assignment _ _ | conditional _ _ _ | loop _ _ | switch _ _ | arm _ _
  | list _ | access _ _ | global _ _ _ _ => inferInstanceAs (Decidable False)

/-- A part that keeps to what types can say, and hides none of the names. -/
def IsPreciseIn (names : List Name) (node : Node) : Prop :=
  node.IsPrecisePart ∧ ¬ node.Hides names

instance (names : List Name) : DecidablePred (IsPreciseIn names) :=
  fun _ => inferInstanceAs (Decidable (_ ∧ ¬ _))

/-- A program that keeps to what types can say, and hides no global. -/
def IsPreciseProgram (program : Node) : Prop :=
  program.Every (IsPreciseIn program.globalNames)

instance (program : Node) : Decidable program.IsPreciseProgram :=
  inferInstanceAs (Decidable (program.Every _))

end Node

namespace Scope

variable {s s' s'' : Scope} {f : Function}

theorem Below.refl (s : Scope) : s.Below s := ⟨rfl, fun _ _ _ h => h⟩

theorem Below.trans (h : s.Below s') (h' : s'.Below s'') : s.Below s'' :=
  ⟨h.vars.trans h'.vars,
    fun name arity f hf => h'.functions name arity f (h.functions name arity f hf)⟩

theorem Below.subset (h : s.Below s') : s'.vars ⊆ s.vars := by
  rw [h.vars]
  exact List.Subset.refl _

theorem findFunction?_congr {name name' : Name} {arity : Nat} (s : Scope)
    (h : name.same name' = true) : s.findFunction? name arity = s.findFunction? name' arity := by
  unfold Scope.findFunction? Function.answers Name.same
  rw [Name.same_iff.mp h]

theorem findFunction?_withFunction (s : Scope) (f : Function) :
    (s.withFunction f).findFunction? f.name f.arity = some f := by
  unfold Scope.findFunction? Scope.withFunction
  rw [List.find?_cons, Function.answers, Name.same_refl, beq_self_eq_true]
  rfl

/-- A function that is new hides none that is there. -/
theorem below_withFunction (hnew : s.findFunction? f.name f.arity = none) :
    s.Below (s.withFunction f) := by
  refine ⟨rfl, ?_⟩
  intro name arity g hg
  have hcons : (s.withFunction f).findFunction? name arity =
      if f.answers name arity = true then some f else s.findFunction? name arity := by
    unfold Scope.findFunction? Scope.withFunction
    rw [List.find?_cons]
    cases f.answers name arity <;> rfl
  rw [hcons]
  by_cases hanswers : f.answers name arity = true
  · obtain ⟨hsame, harity⟩ := answers_iff.mp hanswers
    rw [findFunction?_congr s hsame, harity, hg] at hnew
    cases hnew
  · rw [if_neg hanswers]
    exact hg

end Scope

namespace Discipline

variable {d : Discipline} {s root : Scope} {node : Node}

theorem Free.of_subset {name : Name} (hvars : s.vars ⊆ root.vars) (h : Free root name) :
    Free s name := by
  refine ⟨List.find?_eq_none.mpr fun v hv => ?_, h.2⟩
  exact List.find?_eq_none.mp h.1 v (hvars hv)

theorem Admits.of_subset (hvars : s.vars ⊆ root.vars) (h : d.Admits root node) :
    d.Admits s node := by
  cases d with
  | names => exact h
  | types => exact ⟨h.1, h.2.1, fun name typeName value hnode =>
      (h.2.2 name typeName value hnode).of_subset hvars⟩

/-- What a discipline demands of the declaration of a global. -/
structure AdmitsGlobal (d : Discipline) (root : Scope) (typeName : Name) (value : Node) :
    Prop where
  initial : value.Every (d.Admits root)
  precise : d = .types → value.isAbsent = false ∧ Node.IsPrecise typeName

/-- What a discipline demands of the declaration of a function. -/
structure AdmitsFunction (d : Discipline) (root : Scope) (parameters parameterTypes : List Name)
    (returnType : Name) (body : List Node) : Prop where
  arity : parameters.length = parameterTypes.length
  parts : Node.EveryOf (d.Admits root) body
  precise : d = .types → (∀ t ∈ parameterTypes, t.isMissing = false ∧ Node.IsPrecise t) ∧
    Node.IsPrecise returnType ∧
      (returnType = .missing ∨ returnType.text = "Nil" ∨ Node.anyReturns body = true)
  free : d = .types → ∀ p ∈ parameters, Free root p

/-- What a discipline demands of a declaration. -/
def AdmitsDeclaration (d : Discipline) (root : Scope) : Node → Prop
  | .global _ typeName _ value => d.AdmitsGlobal root typeName value
  | .function _ parameters parameterTypes returnType body =>
      d.AdmitsFunction root parameters parameterTypes returnType body
  | _ => False

theorem AdmitsDeclaration.of_subset (hvars : s.vars ⊆ root.vars)
    (h : d.AdmitsDeclaration root node) : d.AdmitsDeclaration s node := by
  cases node with
  | «global» name typeName isMutable value =>
      exact ⟨h.initial.map fun _ hp => hp.of_subset hvars, h.precise⟩
  | function name parameters parameterTypes returnType body =>
      exact ⟨h.arity, h.parts.map fun _ hp => hp.of_subset hvars,
        h.precise, fun htypes p hp => (h.free htypes p hp).of_subset hvars⟩
  | _ => exact h.elim

end Discipline

section Roots

variable {d : Discipline} {s root : Scope} {f : Function} {parameters : List Name}
  {body : List Node} {entry : CheckState}

/-- A function that was checked below one root was checked below every root that knows
more functions. -/
theorem Function.Checked.below (h : f.Checked d s parameters body entry) (hs : s.Below root) :
    f.Checked d root parameters body entry where
  action := h.action
  arity := h.arity
  start := by
    obtain ⟨known, c, hknown, hrest⟩ := h.start
    exact ⟨known, c, hknown.trans hs, hrest⟩
  enclosing := h.enclosing
  checked := h.checked
  admits := h.admits.map fun _ hp => hp.of_subset hs.subset
  precise := h.precise
  free htypes p hp := (h.free htypes p hp).of_subset hs.subset
  returns := h.returns

theorem Scope.Grounded.withFunction (hs : s.Grounded d)
    (hnew : s.findFunction? f.name f.arity = none)
    (hf : f.Checked d (s.withFunction f) parameters body entry) :
    (s.withFunction f).Grounded d := by
  have hbelow : s.Below (s.withFunction f) := Scope.below_withFunction hnew
  intro g hg
  rcases List.mem_cons.mp hg with rfl | hg
  · exact Or.inr ⟨parameters, body, entry, hf⟩
  · rcases hs g hg with hprint | ⟨parameters', body', entry', hchecked⟩
    · exact Or.inl hprint
    · exact Or.inr ⟨parameters', body', entry', hchecked.below hbelow⟩

end Roots

namespace Running

open BlockScript.Computation Typing CheckState

variable {d : Discipline} {settings : Settings} {c c' : CheckState} {a : List Annotation}
  {s root : Scope} {m : Machine}

section Functions

variable {f : Function} {parameters parameterTypes : List Name} {name returnType : Name}
  {body : List Node} {entry : CheckState}

theorem precise_signature
    (hsignature : signature name parameters parameterTypes returnType body = .ok f)
    (hprecise : ∀ t ∈ parameterTypes, t.isMissing = false ∧ Node.IsPrecise t) :
    ∀ type ∈ f.parameterTypes, type ≠ .any ∧ type ≠ .comparable := by
  obtain ⟨_, _, htypes, _⟩ := signature_eq_ok hsignature
  clear hsignature
  generalize f.parameterTypes = types at htypes
  induction htypes with
  | nil => nofun
  | @cons typeName type typeNames types hnamed _ ih =>
      intro t ht
      rcases List.mem_cons.mp ht with rfl | ht
      · obtain ⟨hgiven, hname⟩ := hprecise typeName List.mem_cons_self
        rcases typeNamedOr_eq_ok hnamed with ⟨hmissing, _⟩ | ⟨_, hnamed⟩
        · rw [hgiven] at hmissing
          cases hmissing
        · exact precise_of_typeNamed hnamed hname
      · exact ih (fun t ht => hprecise t (List.mem_cons_of_mem _ ht)) t ht

theorem returnType_eq_nil
    (hsignature : signature name parameters parameterTypes returnType body = .ok f)
    (hnil : returnType = .missing ∨ returnType.text = "Nil") : f.returnType = .nil := by
  obtain ⟨_, _, _, htype⟩ := signature_eq_ok hsignature
  rcases typeNamedOr_eq_ok htype with ⟨_, htype⟩ | ⟨hgiven, htype⟩
  · exact htype
  · rcases hnil with rfl | hnil
    · cases hgiven
    · have htext := text_of_typeNamed htype
      rw [hnil] at htext
      cases hf : f.returnType with
      | nil => rfl
      | _ =>
          rw [hf] at htext
          simp [StaticType.name] at htext

/-- A declared function is checked below the root that has it. -/
theorem checked_of_check (hscopes : c.scopes = ⟨s, []⟩)
    (hcheck : check (.function name parameters parameterTypes returnType body) c = (.ok a, c'))
    (hadmits : d.AdmitsFunction s parameters parameterTypes returnType body) :
    ∃ f entry, enterBody name parameters parameterTypes returnType body c = (.ok f, entry) ∧
      signature name parameters parameterTypes returnType body = .ok f ∧
      s.findFunction? f.name f.arity = none ∧ c'.scopes = ⟨s.withFunction f, []⟩ ∧
      f.Checked d (s.withFunction f) parameters body entry := by
  have hinner : Node.EveryOf Node.IsInner body := Discipline.innerOf_of_admits hadmits.parts
  obtain ⟨f, entry, inBody, c₁, henter, hbody, _, _⟩ := function_eq_ok hcheck
  obtain ⟨f', entry', henter', hafter⟩ := function_scopes hinner hcheck
  rw [henter] at henter'
  cases henter'
  obtain ⟨hsignature, _, hnew, c₂, hc₂, henclosing, hparameters⟩ := enterBody_eq_ok henter
  obtain ⟨_, haction, htypes, _⟩ := signature_eq_ok hsignature
  rw [hscopes] at hnew hc₂ hafter
  have hbelow : s.Below (s.withFunction f) := Scope.below_withFunction hnew
  refine ⟨f, entry, henter, hsignature, hnew, hafter, ?_⟩
  refine ⟨haction, ?_, ⟨s.withFunction f, c₂, Scope.Below.refl _, hc₂, hparameters⟩, ?_,
    ⟨inBody, c₁, hbody⟩, ?_, ?_, ?_, ?_⟩
  · rw [hadmits.arity, htypes.length_eq]
  · rw [(bindParameters_continues hparameters).enclosing, henclosing]
  · exact hadmits.parts
  · exact fun htypes => precise_signature hsignature (hadmits.precise htypes).1
  · exact hadmits.free
  · intro htypes
    rcases (hadmits.precise htypes).2.2 with hmissing | hnil | hreturns
    · exact Or.inl (returnType_eq_nil hsignature (Or.inl hmissing))
    · exact Or.inl (returnType_eq_nil hsignature (Or.inr hnil))
    · exact Or.inr hreturns

end Functions

section Declarations

variable {steps calls : Nat}

theorem sees_root (hscopes : c.scopes = ⟨s, []⟩) : Sees s c.scopes [] :=
  ⟨s, Scope.Below.refl s, by rw [hscopes]; rfl⟩

/-- A global is declared in the machine as it is in the text. -/
theorem ensures_global_agrees (hs : s.Grounded d) (hscopes : c.scopes = ⟨s, []⟩)
    {name typeName : Name} {isMutable : Bool} {value : Node}
    (hcheck : check (.global name typeName isMutable value) c = (.ok a, c'))
    (hadmits : d.AdmitsGlobal s typeName value) (h : Stacked d s [] m.scopes.toList) :
    (execute settings steps calls (.global name typeName isMutable value)).Ensures m
      (fun _ m' => Stacked d c'.scopes.current [] m'.scopes.toList) (d.Accepts settings) := by
  obtain ⟨found, hdeclared, hname, hadds, _⟩ := global_eq_ok hcheck
  cases steps with
  | zero => exact ensures_fail Discipline.accepts_exhausted
  | succ steps =>
      refine (yields_initial ((stepsAgree settings hs steps).evaluation calls) hdeclared
        hadmits.initial hadmits.precise (sees_root hscopes) h).bind ?_
      rintro v m₁ ⟨h₁, hv⟩
      have hnew := hadds.isNew
      rw [hscopes] at hnew
      obtain ⟨scopes, hdefine, hstacked⟩ :=
        h₁.defineGlobal (declaredVariable name isMutable found) hnew hv
      have hbind : (bindVariable name isMutable v).Ensures m₁
          (fun _ m' => Stacked d c'.scopes.current [] m'.scopes.toList) (d.Accepts settings) := by
        refine Ensures.ofState ?_
        have hbound : Computation.Ensures _ m₁ (fun s m' => s = scopes ∧ m' = m₁)
            (d.Accepts settings) := ensures_bound hname hdefine ⟨rfl, rfl⟩
        refine hbound.bind ?_
        rintro _ _ ⟨rfl, rfl⟩
        rw [hadds.scopes, hscopes]
        exact ensures_change hstacked
      exact (ensures_declare_agrees hv hbind).imp fun _ _ h => h.2

/-- A function is declared in the machine as it is in the text. -/
theorem ensures_function_agrees (hscopes : c.scopes = ⟨s, []⟩) {name returnType : Name}
    {parameters parameterTypes : List Name} {body : List Node}
    (hcheck : check (.function name parameters parameterTypes returnType body) c = (.ok a, c'))
    (hadmits : d.AdmitsFunction s parameters parameterTypes returnType body)
    (h : Stacked d s [] m.scopes.toList) :
    (execute settings steps calls
      (.function name parameters parameterTypes returnType body)).Ensures m
      (fun _ m' => Stacked d c'.scopes.current [] m'.scopes.toList) (d.Accepts settings) := by
  obtain ⟨f, entry, henter, hsignature, hnew, hafter, hchecked⟩ :=
    checked_of_check hscopes hcheck hadmits
  obtain ⟨_, hbindable, _⟩ := enterBody_eq_ok henter
  obtain ⟨hname, haction, _, _⟩ := signature_eq_ok hsignature
  cases steps with
  | zero => exact ensures_fail Discipline.accepts_exhausted
  | succ steps =>
      have hagrees : f.Agrees (declaredFunction name parameters body) := by
        refine ⟨hname.symm, ?_, haction.symm⟩
        unfold Function.arity
        rw [← hchecked.arity]
        exact List.length_map _
      obtain ⟨scopes, hdefine, hstacked⟩ := h.defineFunction hagrees hnew
      have hbind : (bindFunction (declaredFunction name parameters body)).Ensures m
          (fun _ m' => Stacked d c'.scopes.current [] m'.scopes.toList) (d.Accepts settings) := by
        refine Ensures.ofState ?_
        rw [hname] at hbindable
        have hbound : Computation.Ensures _ m (fun s m' => s = scopes ∧ m' = m)
            (d.Accepts settings) := ensures_bound hbindable hdefine ⟨rfl, rfl⟩
        refine hbound.bind ?_
        rintro _ _ ⟨rfl, rfl⟩
        rw [hafter]
        exact ensures_change hstacked
      refine hbind.bind ?_
      intro _ m₁ h₁
      refine (ensures_note_agrees h₁).bind ?_
      intro _ m₂ h₂
      exact ensures_pure h₂

end Declarations

section Globals

/-- The root while globals are declared: the function that prints is the only one. -/
structure Opens (c : CheckState) (s : Scope) : Prop where
  scopes : c.scopes = ⟨s, []⟩
  functions : s.functions = [.print]

theorem Opens.grounded (h : Opens c s) : s.Grounded d := by
  intro f hf
  rw [h.functions, List.mem_singleton] at hf
  exact Or.inl hf

theorem Opens.global (hc : Opens c s) {name typeName : Name} {isMutable : Bool} {value : Node}
    (hcheck : check (.global name typeName isMutable value) c = (.ok a, c')) :
    ∃ v : Variable, v.name = name ∧ Opens c' { s with vars := v :: s.vars } := by
  obtain ⟨found, _, _, hadds, _⟩ := global_eq_ok hcheck
  exact ⟨_, rfl, by rw [hadds.scopes, hc.scopes], hc.functions⟩

/-- Behind the globals the root has a variable for each of them, and no other ones. -/
theorem Opens.globals {globals : List Node} (hc : Opens c s) (hglobals : ∀ g ∈ globals, g.IsGlobal)
    (hcheck : checkAll globals c = (.ok a, c')) :
    ∃ root, Opens c' root ∧ s.vars ⊆ root.vars ∧
      ∀ v ∈ root.vars, v ∈ s.vars ∨ ∃ g ∈ globals, g.name? = some v.name := by
  induction globals generalizing c a s with
  | nil =>
      cases hcheck
      exact ⟨s, hc, List.Subset.refl _, fun v hv => Or.inl hv⟩
  | cons node globals ih =>
      obtain ⟨found, others, c₁, hnode, hothers, _⟩ := checkAll_cons hcheck
      have hglobal := hglobals node List.mem_cons_self
      cases node with
      | «global» name typeName isMutable value =>
          obtain ⟨v, hname, hc₁⟩ := hc.global hnode
          obtain ⟨root, hroot, hsubset, hfrom⟩ :=
            ih hc₁ (fun g hg => hglobals g (List.mem_cons_of_mem _ hg)) hothers
          refine ⟨root, hroot, fun w hw => hsubset (List.mem_cons_of_mem _ hw), ?_⟩
          intro w hw
          rcases hfrom w hw with hold | ⟨g, hg, hgname⟩
          · rcases List.mem_cons.mp hold with rfl | hold
            · exact Or.inr ⟨_, List.mem_cons_self, by rw [hname]; rfl⟩
            · exact Or.inl hold
          · exact Or.inr ⟨g, List.mem_cons_of_mem _ hg, hgname⟩
      | _ => exact hglobal.elim

theorem ensures_globals_agrees (settings : Settings) (steps : Nat) {globals : List Node}
    (hc : Opens c s) (hglobals : ∀ g ∈ globals, g.IsGlobal)
    (hcheck : checkAll globals c = (.ok a, c'))
    (hadmits : ∀ g ∈ globals, d.AdmitsDeclaration c'.scopes.current g)
    (h : Stacked d s [] m.scopes.toList) :
    (executeEach settings steps globals).Ensures m
      (fun _ m' => Stacked d c'.scopes.current [] m'.scopes.toList) (d.Accepts settings) := by
  induction globals generalizing c a s m with
  | nil =>
      cases hcheck
      rw [hc.scopes]
      exact ensures_pure h
  | cons node globals ih =>
      obtain ⟨found, others, c₁, hnode, hothers, _⟩ := checkAll_cons hcheck
      have hglobal := hglobals node List.mem_cons_self
      have hrest : ∀ g ∈ globals, g.IsGlobal := fun g hg => hglobals g (List.mem_cons_of_mem _ hg)
      cases node with
      | «global» name typeName isMutable value =>
          obtain ⟨v, _, hc₁⟩ := hc.global hnode
          obtain ⟨root', hroot', hvars, _⟩ := hc₁.globals hrest hothers
          have hcurrent : c'.scopes.current = root' := by rw [hroot'.scopes]
          rw [← hcurrent] at hvars
          have hvalue : d.AdmitsGlobal s typeName value :=
            (hadmits _ List.mem_cons_self).of_subset
              fun w hw => hvars (List.mem_cons_of_mem _ hw)
          refine (ensures_global_agrees hc.grounded hc.scopes hnode hvalue h).bind ?_
          intro _ m₁ h₁
          rw [hc₁.scopes] at h₁
          exact ih hc₁ hrest hothers
            (fun g hg => hadmits g (List.mem_cons_of_mem _ hg)) h₁
      | _ => exact hglobal.elim

end Globals

section Functions

/-- The root while functions are declared: all of them are checked. -/
structure Rooted (d : Discipline) (c : CheckState) (root : Scope) : Prop where
  scopes : c.scopes = ⟨root, []⟩
  grounded : root.Grounded d

theorem Rooted.function (hc : Rooted d c s) {name returnType : Name}
    {parameters parameterTypes : List Name} {body : List Node}
    (hcheck : check (.function name parameters parameterTypes returnType body) c = (.ok a, c'))
    (hadmits : d.AdmitsFunction s parameters parameterTypes returnType body) :
    ∃ f entry, enterBody name parameters parameterTypes returnType body c = (.ok f, entry) ∧
      signature name parameters parameterTypes returnType body = .ok f ∧
      f.Checked d (s.withFunction f) parameters body entry ∧ s.Below (s.withFunction f) ∧
      Rooted d c' (s.withFunction f) := by
  obtain ⟨f, entry, henter, hsignature, hnew, hafter, hchecked⟩ :=
    checked_of_check hc.scopes hcheck hadmits
  exact ⟨f, entry, henter, hsignature, hchecked, Scope.below_withFunction hnew, hafter,
    hc.grounded.withFunction hnew hchecked⟩

theorem admits_of_below {nodes : List Node} (hs : s.Below root)
    (h : ∀ f ∈ nodes, d.AdmitsDeclaration s f) : ∀ f ∈ nodes, d.AdmitsDeclaration root f :=
  fun f hf => (h f hf).of_subset hs.subset

theorem Rooted.functions {functions : List Node} {hasMain : Bool} (hc : Rooted d c s)
    (hfunctions : ∀ f ∈ functions, f.IsFunction)
    (hadmits : ∀ f ∈ functions, d.AdmitsDeclaration s f)
    (hcheck : checkFunctions functions c = (.ok (hasMain, a), c')) :
    ∃ root, Rooted d c' root ∧ s.Below root ∧
      (hasMain = true → ∃ f, root.findFunction? "main" 0 = some f ∧ f.returnType = .integer) := by
  induction functions generalizing c a s hasMain with
  | nil =>
      cases hcheck
      exact ⟨s, hc, Scope.Below.refl s, nofun⟩
  | cons node functions ih =>
      obtain ⟨isMain, found, hasMain', others, c₁, hmain, hnode, hothers, rfl, _⟩ :=
        checkFunctions_cons hcheck
      have hfunction := hfunctions node List.mem_cons_self
      have hrest : ∀ f ∈ functions, d.AdmitsDeclaration s f :=
        fun f hf => hadmits f (List.mem_cons_of_mem _ hf)
      cases node with
      | function name parameters parameterTypes returnType body =>
          obtain ⟨f, entry, _, hsignature, hchecked, hbelow, hc₁⟩ :=
            hc.function hnode (hadmits _ List.mem_cons_self)
          obtain ⟨root, hroot, habove, hlater⟩ := ih hc₁
            (fun g hg => hfunctions g (List.mem_cons_of_mem _ hg)) (admits_of_below hbelow hrest)
            hothers
          refine ⟨root, hroot, hbelow.trans habove, ?_⟩
          intro hhas
          cases isMain with
          | false => exact hlater hhas
          | true =>
              obtain ⟨types, body', heq⟩ := declaresMain_eq_true hmain
              cases heq
              obtain ⟨hname, _, _, htype⟩ := signature_eq_ok hsignature
              refine ⟨f, ?_, ?_⟩
              · have hfind := Scope.findFunction?_withFunction s f
                have harity : f.arity = 0 := hchecked.arity.symm
                rw [hname, harity] at hfind
                exact habove.functions _ _ _ hfind
              · rcases typeNamedOr_eq_ok htype with ⟨hmissing, _⟩ | ⟨_, htype⟩
                · cases hmissing
                · have htext := text_of_typeNamed htype
                  rw [Name.text_ofText] at htext
                  cases hf : f.returnType with
                  | integer => rfl
                  | _ =>
                      rw [hf] at htext
                      simp [StaticType.name] at htext
      | _ => exact hfunction.elim

theorem ensures_functions_agrees (settings : Settings) (steps : Nat) {functions : List Node}
    {hasMain : Bool} (hc : Rooted d c s)
    (hfunctions : ∀ f ∈ functions, f.IsFunction)
    (hadmits : ∀ f ∈ functions, d.AdmitsDeclaration s f)
    (hcheck : checkFunctions functions c = (.ok (hasMain, a), c'))
    (h : Stacked d s [] m.scopes.toList) :
    (executeEach settings steps functions).Ensures m
      (fun _ m' => Stacked d c'.scopes.current [] m'.scopes.toList) (d.Accepts settings) := by
  induction functions generalizing c a s hasMain m with
  | nil =>
      cases hcheck
      rw [hc.scopes]
      exact ensures_pure h
  | cons node functions ih =>
      obtain ⟨isMain, found, hasMain', others, c₁, _, hnode, hothers, _, _⟩ :=
        checkFunctions_cons hcheck
      have hfunction := hfunctions node List.mem_cons_self
      have hrest : ∀ f ∈ functions, d.AdmitsDeclaration s f :=
        fun f hf => hadmits f (List.mem_cons_of_mem _ hf)
      cases node with
      | function name parameters parameterTypes returnType body =>
          have hnodeAdmits := hadmits _ List.mem_cons_self
          obtain ⟨f, entry, _, _, _, hbelow, hc₁⟩ := hc.function hnode hnodeAdmits
          refine (ensures_function_agrees hc.scopes hnode hnodeAdmits h).bind ?_
          intro _ m₁ h₁
          rw [hc₁.scopes] at h₁
          exact ih hc₁ (fun g hg => hfunctions g (List.mem_cons_of_mem _ hg))
            (admits_of_below hbelow hrest) hothers h₁
      | _ => exact hfunction.elim

end Functions

section Admission

variable {names : List Name} {node : Node}

/-- The variables of a root have some of the names, all of which source text can give. -/
structure Named (root : Scope) (names : List Name) : Prop where
  mem : ∀ v ∈ root.vars, v.name ∈ names
  spelled : ∀ name ∈ names, Node.IsSpelled name

theorem Named.free (h : Named root names) {name : Name} (hname : Node.IsSpelled name)
    (hnew : name ∉ names) : Discipline.Free root name := by
  refine ⟨List.find?_eq_none.mpr fun v hv hsame => ?_, switchName_of_spelled hname⟩
  obtain ⟨s, hs, _⟩ := h.spelled v.name (h.mem v hv)
  obtain ⟨t, rfl, _⟩ := hname
  rw [hs, Name.same_ofText] at hsame
  rw [hsame] at hs
  exact hnew (hs ▸ h.mem v hv)

theorem Named.admits (h : Named root names) (hinner : node.IsInner)
    (hpart : node.IsPreciseIn names) : Discipline.types.Admits root node := by
  refine ⟨hinner, hpart.1, ?_⟩
  rintro name typeName value rfl
  exact h.free hinner hpart.2

theorem Named.admitsGlobal (h : Named root names) (hnode : node.IsGlobal)
    (hparts : d = .types → node.Every (Node.IsPreciseIn names)) :
    d.AdmitsDeclaration root node := by
  cases node with
  | «global» name typeName isMutable value =>
      cases d with
      | names => exact ⟨hnode.2, nofun⟩
      | types =>
          exact ⟨Node.Every.map₂ (fun _ hi hp => h.admits hi hp) hnode.2 (hparts rfl).2,
            fun _ => (hparts rfl).1.1⟩
  | _ => exact hnode.elim

theorem Named.admitsFunction (h : Named root names) (hnode : node.IsFunction)
    (hparts : d = .types → node.Every (Node.IsPreciseIn names)) :
    d.AdmitsDeclaration root node := by
  cases node with
  | function name parameters parameterTypes returnType body =>
      cases d with
      | names => exact ⟨hnode.1, hnode.2.2, nofun, nofun⟩
      | types =>
          refine ⟨hnode.1, ?_, fun _ => (hparts rfl).1.1, ?_⟩
          · exact Node.EveryOf.map₂ (fun _ hi hp => h.admits hi hp) hnode.2.2 (hparts rfl).2
          · intro _ p hp
            exact h.free (hnode.2.1 p hp) fun hmem => (hparts rfl).1.2 ⟨p, hp, hmem⟩
  | _ => exact hnode.elim

end Admission

section Programs

variable {globals functions : List Node}

theorem opens_opening (trace : Trace) : Opens (opening [] trace) .builtin := ⟨rfl, rfl⟩

theorem stacked_start (d : Discipline) (heap : Heap) (trace : Trace) :
    Stacked d .builtin [] (Machine.start [] heap trace).scopes.toList :=
  .root ⟨.nil, .nil, .cons ⟨rfl, rfl, rfl⟩ .nil⟩

/-- The names of the globals are those of the root behind them. -/
theorem named_globals (functions : List Node) (hglobals : ∀ g ∈ globals, g.IsGlobal) {trace : Trace}
    (hcheck : checkAll globals (opening [] trace) = (.ok a, c)) :
    Named c.scopes.current ((Node.source globals functions).globalNames) := by
  obtain ⟨root, hroot, _, hfrom⟩ := (opens_opening trace).globals hglobals hcheck
  rw [hroot.scopes]
  refine ⟨?_, ?_⟩
  · intro v hv
    rcases hfrom v hv with hold | ⟨g, hg, hname⟩
    · cases hold
    · exact List.mem_filterMap.mpr ⟨g, hg, hname⟩
  · intro name hname
    obtain ⟨g, hg, hgname⟩ := List.mem_filterMap.mp hname
    have hglobal := hglobals g hg
    cases g with
    | «global» name typeName isMutable value =>
        cases hgname
        exact hglobal.1
    | _ => exact hglobal.elim

/-- What a discipline demands of a program. -/
def AdmitsProgram (d : Discipline) (program : Node) : Prop :=
  d = .types → program.IsPreciseProgram

/-- The check of a program ends with a root whose functions are checked, and which has
`main`. -/
theorem declarations_of_checkProgram {trace : Trace}
    (hprogram : (Node.source globals functions).IsProgram)
    (hadmits : AdmitsProgram d (.source globals functions))
    (hcheck : BlockScript.checkProgram [] trace (.source globals functions) = (.ok a, c)) :
    ∃ found others c₁ c₂, checkAll globals (opening [] trace) = (.ok found, c₁) ∧
      checkFunctions functions c₁ = (.ok (true, others), c₂) ∧ a = found ++ others ∧
      c.scopes = c₂.scopes ∧ (∃ s, Opens c₁ s) ∧
      (∀ g ∈ globals, d.AdmitsDeclaration c₁.scopes.current g) ∧
      ∀ f ∈ functions, d.AdmitsDeclaration c₁.scopes.current f := by
  obtain ⟨_, _, found, others, c₁, c₂, heq, hglobals, hfunctions, ha, hscopes⟩ :=
    checkProgram_eq_ok hcheck
  cases heq
  have hnamed := named_globals functions hprogram.1 hglobals
  obtain ⟨s, hs, _⟩ := (opens_opening trace).globals hprogram.1 hglobals
  refine ⟨found, others, c₁, c₂, hglobals, hfunctions, ha, hscopes, ⟨s, hs⟩, ?_, ?_⟩
  · intro g hg
    exact hnamed.admitsGlobal (hprogram.1 g hg)
      fun htypes => (hadmits htypes).2.1.of_mem hg
  · intro f hf
    exact hnamed.admitsFunction (hprogram.2 f hf)
      fun htypes => (hadmits htypes).2.2.of_mem hf

/-- A failure that a discipline does not rule out for the run of a program, which may go too
deep before any call. -/
def EndsIn (d : Discipline) (settings : Settings) (e : RunFailure) : Prop :=
  d.Accepts settings e ∨ e = .endless ∧ settings.calls = 0

/-- The function that a run starts with is the one of the root. -/
theorem ensures_main_agrees {main : Function} (h : Stacked d root [] m.scopes.toList)
    (hfind : root.findFunction? "main" 0 = some main) :
    mainFunction.Ensures m (fun f m' => m' = m ∧ main.Agrees f) (EndsIn d settings) := by
  obtain ⟨g, hg, hagrees⟩ := h.lookupFunction hfind
  refine ensures_mainFunction ?_ ?_
  · intro f hf
    rw [hg] at hf
    cases hf
    exact ⟨rfl, hagrees⟩
  · intro fault hfault
    rw [hg] at hfault
    cases hfault

theorem ensures_invokeMain_agrees {steps : Nat} {main f : Function} (hroot : root.Grounded d)
    (hfind : root.findFunction? "main" 0 = some main) (hagrees : main.Agrees f)
    (h : Stacked d root [] m.scopes.toList) :
    (invoke settings (execute settings steps) settings.calls f []).Ensures m
      (fun v m' => Stacked d root [] m'.scopes.toList ∧ d.Fits (some main.returnType) v)
      (EndsIn d settings) := by
  obtain ⟨hmem, _, hlength⟩ := of_findFunction? hfind
  rcases hroot main hmem with rfl | ⟨parameters, body, entry, hchecked⟩
  · cases hlength
  · refine ensures_invoke_agrees (stepsAgree settings hroot steps).execution settings.calls
      hchecked hagrees ?_ h
    rw [List.length_eq_zero_iff.mp hlength]
    exact .nil

/-- The run of a checked program comes to an integer and leaves its globals, or fails as its
discipline accepts. -/
theorem ensures_runProgram_agrees (settings : Settings) (steps : Nat) (heap : Heap)
    (trace' : Trace) {trace : Trace} {program : Node} (hprogram : program.IsProgram)
    (hadmits : AdmitsProgram d program)
    (hcheck : BlockScript.checkProgram [] trace program = (.ok a, c)) :
    (runProgram settings steps program).Ensures (.start [] heap trace')
      (fun v m' => d.Fits (some .integer) v ∧ Stacked d c.scopes.current [] m'.scopes.toList)
      (EndsIn d settings) := by
  cases program with
  | source globals functions =>
      obtain ⟨found, others, c₁, c₂, hglobals, hfunctions, _, hscopes, ⟨s, hopens⟩, hglobalsAdmit,
        hfunctionsAdmit⟩ := declarations_of_checkProgram hprogram hadmits hcheck
      have hcurrent : c₁.scopes.current = s := by rw [hopens.scopes]
      rw [hcurrent] at hfunctionsAdmit
      have hrooted : Rooted d c₁ s := ⟨hopens.scopes, hopens.grounded⟩
      obtain ⟨root, hroot, _, hmain⟩ := hrooted.functions hprogram.2 hfunctionsAdmit hfunctions
      obtain ⟨main, hfind, htype⟩ := hmain rfl
      have hrun : (executeEach settings steps globals).Ensures (.start [] heap trace')
          (fun _ m' => Stacked d c₁.scopes.current [] m'.scopes.toList) (EndsIn d settings) :=
        (ensures_globals_agrees settings steps (opens_opening trace) hprogram.1 hglobals
          hglobalsAdmit (stacked_start d heap trace')).mono (fun _ _ h => h) fun _ he => Or.inl he
      refine hrun.bind ?_
      intro _ m₁ h₁
      rw [hcurrent] at h₁
      have hdeclare : (executeEach settings steps functions).Ensures m₁
          (fun _ m' => Stacked d root [] m'.scopes.toList) (EndsIn d settings) := by
        have hcurrent' : c₂.scopes.current = root := by rw [hroot.scopes]
        rw [← hcurrent']
        exact (ensures_functions_agrees settings steps hrooted hprogram.2 hfunctionsAdmit
          hfunctions h₁).mono (fun _ _ h => h) fun _ he => Or.inl he
      refine hdeclare.bind ?_
      intro _ m₂ h₂
      refine (ensures_main_agrees h₂ hfind).bind ?_
      rintro f m₃ ⟨rfl, hagrees⟩
      refine (Ensures.mono (ensures_note_agrees h₂) (fun _ _ h => h) fun _ he => Or.inl he).bind ?_
      intro _ m₄ h₄
      refine (ensures_invokeMain_agrees hroot.grounded hfind hagrees h₄).bind ?_
      rintro v m₅ ⟨h₅, hv⟩
      rw [htype] at hv
      refine (Ensures.mono (ensures_noteValue_agrees h₅ hv) (fun _ _ h => h)
        fun _ he => Or.inl he).bind ?_
      intro _ m₆ h₆
      rw [hscopes, hroot.scopes]
      exact ensures_pure ⟨hv, h₆⟩
  | _ => exact hprogram.elim

end Programs

end Running
end BlockScript
