import BlockScript.Proofs.Agreement.Parts

/-!
# Agreement at the start

Along its declarations the root of a program is built up, and the origins of the globals with
it.  Every function of the root was checked where it is declared: there its parameters are
bound, and all functions that are known were declared before it.  So agreement holds where a
run starts, and from there at all points that the run reaches.
-/

namespace BlockScript

/-- The function that prints, or one that is declared in front of a place. -/
def Function.DeclaredBefore (A : Analysis) (limit : Nat) (f : Function) : Prop :=
  f = .print ∨ ∃ place < limit, f.DeclaredAt A place

namespace Function.DeclaredBefore

variable {A : Analysis} {f : Function} {place limit : Nat}

theorem mono (h : f.DeclaredBefore A place) (hle : place ≤ limit) :
    f.DeclaredBefore A limit := by
  rcases h with hprint | ⟨p, hp, hdeclared⟩
  · exact Or.inl hprint
  · exact Or.inr ⟨p, Nat.lt_of_lt_of_le hp hle, hdeclared⟩

theorem known (h : f.DeclaredBefore A place) : f.KnownIn A (some place) := by
  rcases h with hprint | ⟨p, hp, hdeclared⟩
  · exact Or.inl hprint
  · exact Or.inr ⟨p, place, rfl, Nat.le_of_lt hp, hdeclared⟩

end Function.DeclaredBefore

namespace Running

open BlockScript.Computation Typing CheckState

variable {A : Analysis} {d : Discipline} {s root : Scope} {x : Site} {a : List Annotation}
  {c c' : CheckState}

/-- The root as it is at a site between globals. -/
structure OpensAt (A : Analysis) (x : Site) (s : Scope) : Prop where
  isOpen : Opens x.state s
  outside : x.Outside
  origins : List.Forall₂ (Origin.Records A.annotations) x.globals s.vars

/-- The root as it is at a site between functions. -/
structure RootedAt (A : Analysis) (d : Discipline) (x : Site) (s : Scope) : Prop where
  rooted : Rooted d x.state s
  outside : x.Outside
  origins : List.Forall₂ (Origin.Records A.annotations) x.globals s.vars
  known : ∀ f ∈ s.functions, f.DeclaredBefore A x.place

theorem OpensAt.rooted (h : OpensAt A x s) : RootedAt A d x s where
  rooted := ⟨h.isOpen.scopes, h.isOpen.grounded⟩
  outside := h.outside
  origins := h.origins
  known f hf := by
    rw [h.isOpen.functions, List.mem_singleton] at hf
    exact Or.inl hf

theorem Rooted.scopes_eq (h : Rooted d c root) {root' : Scope} (hscopes : c.scopes = ⟨root', []⟩) :
    root = root' := by
  have heq := h.scopes
  rw [hscopes] at heq
  cases heq
  rfl

section Parameters

variable {name returnType : Name} {parameters parameterTypes : List Name} {body : List Node}
  {f : Function} {place : Nat}

/-- Parameters that are bound have been recorded with their function. -/
theorem records_parameters
    (hrecord : A.annotations[place]? =
      some ⟨.function name parameters parameterTypes returnType body, .function f⟩)
    {names : List Name} {types : List StaticType} {origins : List Origin} {index : Nat}
    (hnames : parameters.drop index = names) (htypes : f.parameterTypes.drop index = types)
    (hlength : names.length = types.length)
    (hbind : Typing.bindParameters names types c = (.ok (), c'))
    (horigins : List.Forall₂ (Origin.Records A.annotations) origins c.scopes.current.vars) :
    List.Forall₂ (Origin.Records A.annotations) (Origin.parameters place index names origins)
      c'.scopes.current.vars := by
  induction names generalizing types origins index c with
  | nil =>
      cases hbind
      exact horigins
  | cons p names ih =>
      cases types with
      | nil => cases hlength
      | cons type types =>
          obtain ⟨c₁, _, hadds, hrest⟩ := bindParameters_cons hbind
          have hp : parameters[index]? = some p := by
            rw [← List.head?_drop, hnames, List.head?_cons]
          have htype : f.parameterTypes[index]? = some type := by
            rw [← List.head?_drop, htypes, List.head?_cons]
          refine ih ?_ ?_ (Nat.succ.inj hlength) hrest ?_
          · rw [← List.drop_drop, hnames, List.drop_one, List.tail_cons]
          · rw [← List.drop_drop, htypes, List.drop_one, List.tail_cons]
          · rw [hadds.scopes]
            exact .cons (.parameter hrecord hp htype) horigins

theorem Entered.below {entry : CheckState} (h : Entered A d s f parameters body place entry)
    (hs : s.Below root) : Entered A d root f parameters body place entry :=
  { h with isChecked := h.isChecked.below hs }

/-- A function was checked where it is declared. -/
theorem RootedAt.entered {globals before behind : List Node}
    (hprogram : A.program = .source globals
      (before ++ .function name parameters parameterTypes returnType body :: behind))
    (hsite : x = (Site.start A.opening).along (globals ++ before)) (h : RootedAt A d x s)
    (hcheck : check (.function name parameters parameterTypes returnType body) x.state =
      (.ok a, c'))
    (ha : RecordedAt A.annotations x.place a)
    (hadmits : d.AdmitsFunction s parameters parameterTypes returnType body) :
    ∃ f entry, enterBody name parameters parameterTypes returnType body x.state = (.ok f, entry) ∧
      f.name = name ∧ s.Below (s.withFunction f) ∧ Rooted d c' (s.withFunction f) ∧
      f.DeclaredAt A x.place ∧ Entered A d (s.withFunction f) f parameters body x.place entry := by
  obtain ⟨f, entry, inBody, c₁, henter, hbody, _, rfl⟩ := function_eq_ok hcheck
  obtain ⟨f', entry', henter', hsignature, hchecked, hbelow, hrooted⟩ :=
    h.rooted.function hcheck hadmits
  rw [henter] at henter'
  cases henter'
  obtain ⟨hname, haction, _, _⟩ := signature_eq_ok hsignature
  obtain ⟨_, _, _, c₂, hscopes, _, hparameters⟩ := enterBody_eq_ok henter
  have hdeclared : f.DeclaredAt A x.place := by
    rw [← hname] at hprogram henter ha
    rw [hsite] at henter
    exact ⟨parameters, parameterTypes, returnType, body, entry, ha.head, haction,
      .intro hprogram haction henter (congrArg Site.place hsite)⟩
  refine ⟨f, entry, henter, hname, hbelow, hrooted, hdeclared, hchecked, ?_, ?_, ?_⟩
  · exact ⟨inBody, c₁, hbody, ha.tail⟩
  · refine records_parameters ha.head List.drop_zero List.drop_zero hchecked.arity hparameters ?_
    rw [hscopes]
    exact .nil
  · have houter : entry.scopes.outermost = s.withFunction f := by
      unfold Chain.outermost
      rw [(bindParameters_continues hparameters).outer, hscopes, h.rooted.scopes]
      rfl
    rw [houter]
    intro g hg
    rcases List.mem_cons.mp hg with rfl | hg
    · exact Or.inr ⟨x.place, x.place, rfl, Nat.le_refl _, hdeclared⟩
    · exact (h.known g hg).known

end Parameters

section Declarations

variable {before behind : List Node} {hasMain : Bool}

/-- Behind a global the root has its variable, and the site its origin. -/
theorem OpensAt.next (h : OpensAt A x s) {name typeName : Name} {isMutable : Bool} {value : Node}
    (hcheck : check (.global name typeName isMutable value) x.state = (.ok a, c'))
    (ha : RecordedAt A.annotations x.place a) :
    ∃ root, OpensAt A (x.behind (.global name typeName isMutable value)) root := by
  obtain ⟨declared, _, _, hadds, rfl⟩ := global_eq_ok hcheck
  refine ⟨{ s with vars := declaredVariable name isMutable declared :: s.vars },
    ⟨?_, h.isOpen.functions⟩, h.outside.behind nofun, .cons (.declaration ha.head) h.origins⟩
  rw [Site.behind_state hcheck, hadds.scopes, h.isOpen.scopes]

/-- Along globals the root gets their variables, and the site their origins. -/
theorem OpensAt.along (h : OpensAt A x s) (hglobals : ∀ g ∈ before ++ behind, g.IsGlobal)
    (hcheck : checkAll (before ++ behind) x.state = (.ok a, c')) {rest : List Annotation}
    (ha : RecordedAt A.annotations x.place (a ++ rest)) :
    ∃ root a₁ a₂, OpensAt A (x.along before) root ∧
      checkAll before x.state = (.ok a₁, (x.along before).state) ∧
      checkAll behind (x.along before).state = (.ok a₂, c') ∧
      RecordedAt A.annotations (x.along before).place (a₂ ++ rest) := by
  induction before generalizing x s a with
  | nil => exact ⟨s, [], a, h, rfl, hcheck, ha⟩
  | cons node before ih =>
      obtain ⟨found, others, c₁, hnode, hothers, rfl⟩ := checkAll_cons hcheck
      have hglobal := hglobals node List.mem_cons_self
      cases node with
      | «global» name typeName isMutable value =>
          rw [List.append_assoc] at ha
          obtain ⟨_, hnext⟩ := h.next hnode ha.left
          rw [← Site.behind_state hnode] at hothers
          obtain ⟨root, a₁, a₂, hroot, hbefore, hbehind, ha₂⟩ :=
            ih hnext (fun g hg => hglobals g (List.mem_cons_of_mem _ hg)) hothers
              (ha.right (nodes_of_check hnode))
          refine ⟨root, found ++ a₁, a₂, hroot, ?_, hbehind, ha₂⟩
          rw [Site.behind_state hnode] at hbefore
          unfold checkAll
          exact bind_eq_ok.mpr ⟨found, c₁, hnode, bind_eq_ok.mpr ⟨a₁, _, hbefore, rfl⟩⟩
      | _ => exact hglobal.elim

/-- Behind a function the root has it, and its place is passed. -/
theorem RootedAt.next (h : RootedAt A d x s) {f : Function} {name returnType : Name}
    {parameters parameterTypes : List Name} {body : List Node}
    (hcheck : check (.function name parameters parameterTypes returnType body) x.state =
      (.ok a, c'))
    (hrooted : Rooted d c' (s.withFunction f)) (hdeclared : f.DeclaredAt A x.place) :
    RootedAt A d (x.behind (.function name parameters parameterTypes returnType body))
      (s.withFunction f) := by
  have hplace : x.place <
      (x.behind (.function name parameters parameterTypes returnType body)).place :=
    Nat.lt_add_of_pos_right (Nat.succ_pos _)
  refine ⟨?_, h.outside.behind nofun, h.origins, ?_⟩
  · rw [Site.behind_state hcheck]
    exact hrooted
  · intro g hg
    rcases List.mem_cons.mp hg with rfl | hg
    · exact Or.inr ⟨x.place, hplace, hdeclared⟩
    · exact (h.known g hg).mono (Nat.le_of_lt hplace)

/-- Along functions the root gets them, each at its place. -/
theorem RootedAt.along {globals done : List Node}
    (hprogram : A.program = .source globals (done ++ (before ++ behind)))
    (hsite : x = (Site.start A.opening).along (globals ++ done)) (h : RootedAt A d x s)
    (hfunctions : ∀ f ∈ before ++ behind, f.IsFunction)
    (hadmits : ∀ f ∈ before ++ behind, d.AdmitsDeclaration s f)
    (hcheck : checkFunctions (before ++ behind) x.state = (.ok (hasMain, a), c'))
    (ha : RecordedAt A.annotations x.place a) :
    ∃ root hasMain₁ hasMain₂ a₁ a₂, RootedAt A d (x.along before) root ∧ s.Below root ∧
      checkFunctions before x.state = (.ok (hasMain₁, a₁), (x.along before).state) ∧
      checkFunctions behind (x.along before).state = (.ok (hasMain₂, a₂), c') ∧
      RecordedAt A.annotations (x.along before).place a₂ := by
  induction before generalizing x s a hasMain done with
  | nil => exact ⟨s, false, hasMain, [], a, h, Scope.Below.refl s, rfl, hcheck, ha⟩
  | cons node before ih =>
      obtain ⟨isMain, found, _, others, c₁, hmain, hnode, hothers, _, rfl⟩ :=
        checkFunctions_cons hcheck
      have hfunction := hfunctions node List.mem_cons_self
      have hrest : ∀ f ∈ before ++ behind, d.AdmitsDeclaration s f :=
        fun f hf => hadmits f (List.mem_cons_of_mem _ hf)
      cases node with
      | function name parameters parameterTypes returnType body =>
          obtain ⟨f, entry, _, _, hbelow, hrooted, hdeclared, _⟩ :=
            h.entered hprogram hsite hnode ha.left (hadmits _ List.mem_cons_self)
          have hnext := h.next hnode hrooted hdeclared
          have hsite' : x.behind (.function name parameters parameterTypes returnType body) =
              (Site.start A.opening).along (globals ++ (done ++
                [.function name parameters parameterTypes returnType body])) := by
            rw [hsite, ← List.append_assoc, Site.along_append _ (globals ++ done)]
            rfl
          have hnodes := nodes_of_check hnode
          rw [← Site.behind_state hnode] at hothers
          obtain ⟨root, hasMain₁, hasMain₂, a₁, a₂, hroot, habove, hbefore, hbehind, ha₂⟩ :=
            ih (hprogram.trans (congrArg _ (List.append_cons done _ _))) hsite' hnext
              (fun g hg => hfunctions g (List.mem_cons_of_mem _ hg)) (admits_of_below hbelow hrest)
              hothers (ha.right hnodes)
          refine ⟨root, isMain || hasMain₁, hasMain₂, found ++ a₁, a₂, hroot,
            hbelow.trans habove, ?_, hbehind, ha₂⟩
          rw [Site.behind_state hnode] at hbefore
          unfold checkFunctions
          rw [hmain]
          exact bind_eq_ok.mpr ⟨isMain, _, rfl, bind_eq_ok.mpr ⟨found, c₁, hnode,
            bind_eq_ok.mpr ⟨_, _, hbefore, rfl⟩⟩⟩
      | _ => exact hfunction.elim

end Declarations

section Programs

variable {globals functions before behind : List Node} {c₁ c₂ : CheckState}

/-- The declarations of a program were checked as an analysis says. -/
structure Declares (A : Analysis) (d : Discipline) (globals functions : List Node)
    (c₁ c₂ : CheckState) : Prop where
  program : A.program = .source globals functions
  areGlobals : ∀ g ∈ globals, g.IsGlobal
  areFunctions : ∀ f ∈ functions, f.IsFunction
  opening : ∃ trace, A.opening = opening [] trace
  checked : ∃ found others, checkAll globals A.opening = (.ok found, c₁) ∧
    checkFunctions functions c₁ = (.ok (true, others), c₂) ∧ A.annotations = found ++ others
  admitsGlobals : ∀ g ∈ globals, d.AdmitsDeclaration c₁.scopes.current g
  admitsFunctions : ∀ f ∈ functions, d.AdmitsDeclaration c₁.scopes.current f

theorem declares_of_checkProgram {trace : Trace} {annotations : List Annotation}
    (hprogram : (Node.source globals functions).IsProgram)
    (hadmits : AdmitsProgram d (.source globals functions))
    (hcheck : BlockScript.checkProgram [] trace (.source globals functions) =
      (.ok annotations, c)) :
    ∃ c₁ c₂, Declares ⟨.source globals functions, opening [] trace, annotations⟩ d globals functions
      c₁ c₂ ∧ c.scopes = c₂.scopes := by
  obtain ⟨found, others, c₁, c₂, hglobals, hfunctions, rfl, hscopes, _, hglobalsAdmit,
    hfunctionsAdmit⟩ := declarations_of_checkProgram hprogram hadmits hcheck
  exact ⟨c₁, c₂, ⟨rfl, hprogram.1, hprogram.2, ⟨trace, rfl⟩,
    ⟨found, others, hglobals, hfunctions, rfl⟩, hglobalsAdmit, hfunctionsAdmit⟩, hscopes⟩

/-- Behind some globals the root is open, and the other ones are checked next. -/
theorem Declares.opensAt (h : Declares A d (before ++ behind) functions c₁ c₂) :
    ∃ s a₁ a₂ others, OpensAt A ((Site.start A.opening).along before) s ∧
      s.vars ⊆ c₁.scopes.current.vars ∧
      checkAll before A.opening = (.ok a₁, ((Site.start A.opening).along before).state) ∧
      checkAll behind ((Site.start A.opening).along before).state = (.ok a₂, c₁) ∧
      checkFunctions functions c₁ = (.ok (true, others), c₂) ∧
      RecordedAt A.annotations ((Site.start A.opening).along before).place (a₂ ++ others) := by
  obtain ⟨trace, hopening⟩ := h.opening
  obtain ⟨found, others, hglobals, hfunctions, hannotations⟩ := h.checked
  have hrecorded : RecordedAt A.annotations (Site.start A.opening).place (found ++ others) := by
    rw [← hannotations]
    exact RecordedAt.all _
  have hstart : OpensAt A (Site.start A.opening) .builtin := by
    refine ⟨?_, ⟨rfl, rfl, rfl⟩, .nil⟩
    rw [hopening]
    exact opens_opening trace
  obtain ⟨s, a₁, a₂, hs, hbefore, hbehind, ha₂⟩ := hstart.along h.areGlobals hglobals hrecorded
  obtain ⟨final, hfinal, hsubset, _⟩ :=
    hs.isOpen.globals (fun g hg => h.areGlobals g (List.mem_append_right _ hg)) hbehind
  refine ⟨s, a₁, a₂, others, hs, ?_, hbefore, hbehind, hfunctions, ha₂⟩
  rw [hfinal.scopes]
  exact hsubset

/-- Behind some functions the root has them, and the other ones are checked next. -/
theorem Declares.rootedAt (h : Declares A d globals (before ++ behind) c₁ c₂) :
    ∃ s root hasMain₁ hasMain₂ a₁ a₂, Opens c₁ s ∧
      RootedAt A d ((Site.start A.opening).along (globals ++ before)) root ∧ s.Below root ∧
      checkFunctions before c₁ =
        (.ok (hasMain₁, a₁), ((Site.start A.opening).along (globals ++ before)).state) ∧
      checkFunctions behind ((Site.start A.opening).along (globals ++ before)).state =
        (.ok (hasMain₂, a₂), c₂) ∧
      RecordedAt A.annotations ((Site.start A.opening).along (globals ++ before)).place a₂ ∧
      ∀ f ∈ before ++ behind, d.AdmitsDeclaration root f := by
  obtain ⟨s, _, _, others, hs, _, _, hend, hfunctions, ha⟩ :=
    Declares.opensAt (A := A) (d := d) (by rwa [List.append_nil])
  cases hend
  have hadmits := h.admitsFunctions
  rw [hs.isOpen.scopes] at hadmits
  obtain ⟨root, hasMain₁, hasMain₂, a₁, a₂, hroot, hbelow, hbefore, hbehind, ha₂⟩ :=
    hs.rooted.along h.program (by rw [List.append_nil]) h.areFunctions hadmits hfunctions ha
  rw [Site.along_append]
  exact ⟨s, root, hasMain₁, hasMain₂, a₁, a₂, hs.isOpen, hroot, hbelow, hbefore, hbehind, ha₂,
    admits_of_below hbelow hadmits⟩

/-- Each function is checked where it is declared, and the root finds it in the end. -/
theorem Declares.entered {name returnType : Name} {parameters parameterTypes : List Name}
    {body : List Node} (h : Declares A d globals
      (before ++ .function name parameters parameterTypes returnType body :: behind) c₁ c₂)
    (hroot : Rooted d c₂ root) :
    ∃ f entry, enterBody name parameters parameterTypes returnType body
        ((Site.start A.opening).along (globals ++ before)).state = (.ok f, entry) ∧
      f.name = name ∧ root.findFunction? f.name f.arity = some f ∧
      Entered A d root f parameters body
        ((Site.start A.opening).along (globals ++ before)).place entry := by
  obtain ⟨_, s₁, _, _, _, _, _, hs₁, _, _, hcheck, ha, hadmits⟩ := h.rootedAt
  obtain ⟨_, found, _, others, c, _, hnode, hothers, _, rfl⟩ := checkFunctions_cons hcheck
  obtain ⟨f, entry, henter, hname, hbelow, hrooted, _, hentered⟩ :=
    hs₁.entered h.program rfl hnode ha.left (hadmits _ (List.mem_append_right _ List.mem_cons_self))
  obtain ⟨root', hroot', habove, _⟩ := hrooted.functions
    (fun g hg => h.areFunctions g (List.mem_append_right _ (List.mem_cons_of_mem _ hg)))
    (admits_of_below hbelow fun g hg =>
      hadmits g (List.mem_append_right _ (List.mem_cons_of_mem _ hg))) hothers
  obtain rfl : root = root' := hroot.scopes_eq hroot'.scopes
  exact ⟨f, entry, henter, hname, habove.functions _ _ _ (Scope.findFunction?_withFunction s₁ f),
    hentered.below habove⟩

/-- No two functions have one name and the same number of parameters. -/
theorem Declares.distinct {name returnType returnType' : Name}
    {parameters parameterTypes parameters' parameterTypes' : List Name}
    {body body' between : List Node}
    (h : Declares A d globals (before ++ .function name parameters parameterTypes returnType body ::
      (between ++ .function name parameters' parameterTypes' returnType' body' :: behind)) c₁ c₂) :
    parameters.length ≠ parameters'.length := by
  intro hlength
  obtain ⟨_, s, _, _, _, _, _, hs, _, _, hcheck, ha, hadmits⟩ := h.rootedAt
  obtain ⟨_, _, _, _, _, _, hnode, hothers, _, rfl⟩ := checkFunctions_cons hcheck
  obtain ⟨f, _, _, hname, hbelow, hrooted, _, hentered⟩ :=
    hs.entered h.program rfl hnode ha.left (hadmits _ (List.mem_append_right _ List.mem_cons_self))
  obtain ⟨_, _, _, _, c, hbetween, hrest, _⟩ := checkFunctions_append hothers
  have hmem : ∀ g ∈ between,
      g ∈ before ++ .function name parameters parameterTypes returnType body ::
        (between ++ .function name parameters' parameterTypes' returnType' body' :: behind) :=
    fun g hg => List.mem_append_right _ (List.mem_cons_of_mem _ (List.mem_append_left _ hg))
  obtain ⟨root, hroot, habove, _⟩ := hrooted.functions (fun g hg => h.areFunctions g (hmem g hg))
    (admits_of_below hbelow fun g hg => hadmits g (hmem g hg)) hbetween
  have hfind := habove.functions _ _ _ (Scope.findFunction?_withFunction s f)
  -- The second function is bound in this root, where it must be new.
  obtain ⟨_, _, _, _, _, _, hnode', _⟩ := checkFunctions_cons hrest
  obtain ⟨g, _, _, _, henter, _⟩ := function_eq_ok hnode'
  obtain ⟨hsignature, _, hnew, _⟩ := enterBody_eq_ok henter
  obtain ⟨hname', _, htypes, _⟩ := signature_eq_ok hsignature
  have hadmits' := hadmits _ (List.mem_append_right _ (List.mem_cons_of_mem _
    (List.mem_append_right _ List.mem_cons_self)))
  have harity : g.arity = f.arity := by
    unfold Function.arity
    rw [← htypes.length_eq, ← hadmits'.arity, ← hlength, hentered.isChecked.arity]
  rw [hroot.scopes, hname', harity, ← hname, hfind] at hnew
  cases hnew

/-- The body of a function is checked at one place, from one state. -/
theorem Declares.unique (h : Declares A d globals functions c₁ c₂) {f : Function}
    {place place' : Nat} {entry entry' : CheckState}
    (henters : EntersBody A.program A.opening f place entry)
    (henters' : EntersBody A.program A.opening f place' entry') :
    place' = place ∧ entry' = entry := by
  cases henters with
  | @intro _ before _ _ _ _ _ _ _ _ hprogram haction henter hplace =>
      cases henters' with
      | @intro _ before' _ _ _ _ _ _ _ _ hprogram' haction' henter' hplace' =>
          have hbodies := haction.symm.trans haction'
          cases hbodies
          have hfunctions := hprogram.symm.trans hprogram'
          have hdeclared := h.program.symm.trans hprogram
          cases hdeclared
          obtain ⟨rfl, hsplit⟩ : _ = _ ∧ _ = _ := Node.source.inj hfunctions
          by_cases hsame : before = before'
          · cases hsame
            cases List.append_cancel_left hsplit
            rw [henter] at henter'
            cases henter'
            exact ⟨hplace'.trans hplace.symm, rfl⟩
          · -- One of the two stands in front of the other one.
            rcases List.append_eq_append_iff.mp hsplit with ⟨between, hbefore, hbehind⟩ |
              ⟨between, hbefore, hbehind⟩
            · cases between with
              | nil => exact absurd ((List.append_nil _).symm.trans hbefore.symm) hsame
              | cons node between =>
                  cases hbehind
                  exact absurd rfl h.distinct
            · cases between with
              | nil => exact absurd (hbefore.trans (List.append_nil _)) hsame
              | cons node between =>
                  cases hbehind
                  rw [hbefore, List.append_assoc] at h
                  exact absurd rfl h.distinct

theorem findFunction?_self {name : Name} {arity : Nat} {f : Function}
    (h : root.findFunction? name arity = some f) : root.findFunction? f.name f.arity = some f := by
  obtain ⟨_, hsame, harity⟩ := of_findFunction? h
  rw [Scope.findFunction?_congr root hsame, harity]
  exact h

/-- Behind all functions each of those that the root finds was checked where it is declared. -/
theorem Declares.settled (h : Declares A d globals functions c₁ c₂) (hroot : Rooted d c₂ root) :
    Settled A d root where
  grounded := hroot.grounded
  entered name arity f hfind := by
    obtain ⟨hmem, _⟩ := of_findFunction? hfind
    rcases hroot.grounded f hmem with hprint | ⟨_, _, _, hchecked⟩
    · exact Or.inl hprint
    refine Or.inr ?_
    rintro g place entry parameters body hagrees haction henters
    cases henters with
    | @intro _ before behind _ parameterTypes returnType _ declared _ _ heq haction' henter
        hplace =>
        rw [haction] at haction'
        cases haction'
        rw [h.program] at heq
        cases heq
        obtain ⟨f', _, henter', hname, hfind', hentered⟩ := h.entered hroot
        rw [henter] at henter'
        cases henter'
        have hsame : declared = f := by
          have hself := findFunction?_self hfind
          have harity : f.arity = declared.arity := by
            have hbodies := hchecked.action
            rw [← hagrees.action, haction] at hbodies
            cases hbodies
            exact hchecked.arity.symm.trans hentered.isChecked.arity
          rw [hname, hagrees.name, ← harity, hself] at hfind'
          cases hfind'
          rfl
        rw [hplace]
        exact hsame ▸ hentered

end Programs

section Starts

variable {m m' m₁ m₂ m₃ : Machine} {settings : Settings} {steps : Nat} {heap : Heap}
  {trace : Trace} {globals functions before behind : List Node} {c₁ c₂ : CheckState}

theorem Opens.settled (hc : Opens c s) : Settled A d s where
  grounded := hc.grounded
  entered name arity f hfind := by
    obtain ⟨hmem, _⟩ := of_findFunction? hfind
    rw [hc.functions, List.mem_singleton] at hmem
    exact Or.inl hmem

theorem RootedAt.aligned (h : RootedAt A d x root) (hm : Stacked d root [] m.scopes.toList) :
    Aligned A d root m x [] [] where
  sees := sees_root h.rooted.scopes
  stacked := hm
  rooms := by
    rw [h.outside.rooms]
    exact .nil
  callers := by
    rw [h.outside.callers]
    exact .nil
  globals := h.origins

theorem OpensAt.placed (h : OpensAt A x s) (hm : Stacked d s [] m.scopes.toList) :
    Placed A d s m x [] [] where
  toAligned := h.rooted.aligned hm
  settled := h.isOpen.settled
  functions f hf := by
    have houter : x.state.scopes.outermost = s := by
      rw [h.isOpen.scopes]
      rfl
    rw [houter, h.isOpen.functions, List.mem_singleton] at hf
    exact Or.inl hf

/-- Behind some globals a machine agrees with the root that they have built up. -/
theorem Declares.alongGlobals (h : Declares A d (before ++ behind) functions c₁ c₂)
    (hrun : executeEach settings steps before (.start [] heap trace) = (.ok (), m))
    (hs : OpensAt A ((Site.start A.opening).along before) s)
    (hsubset : s.vars ⊆ c₁.scopes.current.vars)
    (hbefore : checkAll before A.opening = (.ok a, ((Site.start A.opening).along before).state)) :
    Stacked d s [] m.scopes.toList := by
  obtain ⟨trace', hopening⟩ := h.opening
  have hopens : Opens A.opening .builtin := by
    rw [hopening]
    exact opens_opening trace'
  have hcurrent : ((Site.start A.opening).along before).state.scopes.current = s := by
    rw [hs.isOpen.scopes]
  have hstacked := (ensures_globals_agrees settings steps hopens
    (fun g hg => h.areGlobals g (List.mem_append_left _ hg)) hbefore (fun g hg => by
      rw [hcurrent]
      exact (h.admitsGlobals g (List.mem_append_left _ hg)).of_subset hsubset)
    (stacked_start d heap trace)).of_ok hrun
  rwa [hcurrent] at hstacked

/-- Behind the globals and some functions a machine agrees with the root that they have built
up. -/
theorem Declares.alongFunctions (h : Declares A d globals (before ++ behind) c₁ c₂)
    (hglobals : executeEach settings steps globals (.start [] heap trace) = (.ok (), m₁))
    (hrun : executeEach settings steps before m₁ = (.ok (), m₂)) :
    ∃ root hasMain a, RootedAt A d ((Site.start A.opening).along (globals ++ before)) root ∧
      Stacked d root [] m₂.scopes.toList ∧
      checkFunctions behind ((Site.start A.opening).along (globals ++ before)).state =
        (.ok (hasMain, a), c₂) ∧ ∀ f ∈ before ++ behind, d.AdmitsDeclaration root f := by
  have hall : Declares A d (globals ++ []) (before ++ behind) c₁ c₂ := by rwa [List.append_nil]
  obtain ⟨s, _, _, _, hs, hsubset, hchecked, hend, _⟩ := hall.opensAt
  cases hend
  have hm₁ := hall.alongGlobals hglobals hs hsubset hchecked
  obtain ⟨s', root, hasMain₁, hasMain₂, a₁, a₂, hopens, hroot, hbelow, hbefore, hbehind, _,
    hrest⟩ := h.rootedAt
  have hrooted : Rooted d ((Site.start A.opening).along globals).state s := hs.rooted.rooted
  obtain rfl : s = s' := hrooted.scopes_eq hopens.scopes
  have hadmits := h.admitsFunctions
  rw [hs.isOpen.scopes] at hadmits
  have hstacked := (ensures_functions_agrees settings steps hrooted
    (fun f hf => h.areFunctions f (List.mem_append_left _ hf))
    (fun f hf => hadmits f (List.mem_append_left _ hf)) hbefore hm₁).of_ok hrun
  rw [hroot.rooted.scopes] at hstacked
  exact ⟨root, hasMain₂, a₂, hroot, hstacked, hbehind, hrest⟩

/-- The root in the end has `main`. -/
theorem Declares.findsMain (h : Declares A d globals functions c₁ c₂) (hroot : Rooted d c₂ root) :
    ∃ main, root.findFunction? "main" 0 = some main := by
  have hall : Declares A d globals ([] ++ functions) c₁ c₂ := h
  obtain ⟨s, _, _, _, _, _, hopens, _⟩ := hall.rootedAt
  obtain ⟨_, _, _, hfunctions, _⟩ := h.checked
  have hadmits := h.admitsFunctions
  rw [hopens.scopes] at hadmits
  have hrooted : Rooted d c₁ s := ⟨hopens.scopes, hopens.grounded⟩
  obtain ⟨root', hroot', _, hmain⟩ := hrooted.functions h.areFunctions hadmits hfunctions
  obtain ⟨main, hfind, _⟩ := hmain rfl
  rw [hroot.scopes_eq hroot'.scopes]
  exact ⟨main, hfind⟩

/-- The function that a run starts with is one of the root in the end. -/
theorem Declares.main (h : Declares A d globals functions c₁ c₂)
    (hglobals : executeEach settings steps globals (.start [] heap trace) = (.ok (), m₁))
    (hrun : executeEach settings steps functions m₁ = (.ok (), m₂)) {f : Function}
    (hmain : mainFunction m₂ = (.ok f, m₂)) :
    ∃ root main, RootedAt A d ((Site.start A.opening).along (globals ++ functions)) root ∧
      Stacked d root [] m₂.scopes.toList ∧ Settled A d root ∧
      root.findFunction? "main" 0 = some main ∧ main.Agrees f := by
  obtain ⟨root, _, _, hroot, hstacked, hend, _⟩ :=
    Declares.alongFunctions (by rwa [List.append_nil]) hglobals hrun
  cases hend
  obtain ⟨main, hfind⟩ := h.findsMain hroot.rooted
  have hfound : mainFunction.Ensures m₂ (fun f m' => m' = m₂ ∧ main.Agrees f)
      (EndsIn d settings) := ensures_main_agrees hstacked hfind
  exact ⟨root, main, hroot, hstacked, h.settled hroot.rooted, hfind, (hfound.of_ok hmain).2⟩

/-- What a run starts with is met as it was checked. -/
theorem LocatedStart.kept {program : Node} {trace trace' : Trace} {annotations : List Annotation}
    (hprogram : program.IsProgram) (hadmits : AdmitsProgram d program)
    (hcheck : BlockScript.checkProgram [] trace program = (.ok annotations, c)) {p : Point Site}
    (hp : LocatedStart settings program (opening [] trace) steps (.start [] heap trace') p) :
    Kept ⟨program, opening [] trace, annotations⟩ d p := by
  cases program with
  | source globals functions =>
      obtain ⟨c₁, c₂, hdeclares, _⟩ := declares_of_checkProgram hprogram hadmits hcheck
      cases hp with
      | @global before behind _ node m₁ heq hrun =>
          cases heq
          obtain ⟨s, _, a, _, hs, hvars, hbefore, hbehind, _, ha⟩ := hdeclares.opensAt
          obtain ⟨found, others, _, hnode, _, rfl⟩ := checkAll_cons hbehind
          have hmem : node ∈ before ++ node :: behind :=
            List.mem_append_right _ List.mem_cons_self
          have hglobal := hprogram.1 node hmem
          have hadmitted := (hdeclares.admitsGlobals node hmem).of_subset hvars
          cases node with
          | «global» name typeName isMutable value =>
              exact .global (hs.placed (hdeclares.alongGlobals hrun hs hvars hbefore))
                hs.isOpen.scopes hnode ha.left.left hadmitted
          | _ => exact hglobal.elim
      | @function _ before behind node m₁ m₂ heq hglobals hrun =>
          cases heq
          obtain ⟨root, _, _, hroot, hstacked, hbehind, hadmitted⟩ :=
            hdeclares.alongFunctions hglobals hrun
          obtain ⟨_, _, _, _, _, _, hnode, _⟩ := checkFunctions_cons hbehind
          have hmem : node ∈ before ++ node :: behind :=
            List.mem_append_right _ List.mem_cons_self
          have hfunction := hprogram.2 node hmem
          cases node with
          | function name parameters parameterTypes returnType body =>
              exact .function (hroot.aligned hstacked) hroot.rooted.scopes hnode (hadmitted _ hmem)
          | _ => exact hfunction.elim
      | main heq hglobals hrun hmain haction hnote hcalls hbind hbefore henters =>
          cases heq
          obtain ⟨root, main, hroot, hstacked, hsettled, hfind, hagrees⟩ :=
            hdeclares.main hglobals hrun hmain
          have hnoted : (note settings 1 "run: main").Ensures _
              (fun _ m' => Stacked d root [] m'.scopes.toList) (d.Accepts settings) :=
            ensures_note_agrees hstacked
          obtain ⟨_, _, hlength⟩ := of_findFunction? hfind
          refine called_of_aligned (hroot.aligned (hnoted.of_ok hnote))
            hsettled hfind hagrees ?_ haction hbind hbefore henters
          rw [List.length_eq_zero_iff.mp hlength]
          exact .nil
  | _ => exact hprogram.elim

/-- All points that the run of a checked program reaches are met as they were checked. -/
theorem Located.kept {program : Node} {trace trace' : Trace} {annotations : List Annotation}
    (hprogram : program.IsProgram) (hadmits : AdmitsProgram d program)
    (hcheck : BlockScript.checkProgram [] trace program = (.ok annotations, c)) {p : Point Site}
    (hp : Located settings program (opening [] trace) steps (.start [] heap trace') p) :
    Kept ⟨program, opening [] trace, annotations⟩ d p :=
  hp.induction (fun _ hstart => hstart.kept hprogram hadmits hcheck)
    (fun _ _ hpart hkept => LocatedPart.kept hpart hkept)

end Starts

end Running
end BlockScript
