import BlockScript.Proofs.Agreement.Starts

/-!
# All points of a run have sites

The function that a call finds is declared in the text, so its body was checked at a place.
Hence every point that the run of a checked program reaches has a site.
-/

namespace BlockScript
namespace Running

open BlockScript.Computation Typing CheckState

variable {A : Analysis} {d : Discipline} {root : Scope} {m m₁ : Machine} {x : Site}
  {own callers : List Layer} {settings : Settings} {steps calls : Nat}

section Calls

variable {name : Name} {f : Function}

/-- A function that the text finds is known where it is called. -/
theorem Placed.known (h : Placed A d root m x own callers) {arity : Nat}
    (hf : x.state.scopes.lookupFunction name arity = .ok f) : f.KnownIn A x.function := by
  obtain ⟨known, _, hlist⟩ := h.sees
  have hfunctions := h.functions
  rw [Chain.outermost_of_toList hlist] at hfunctions
  exact hfunctions f (of_findFunction? (h.stacked.findFunction_known hlist hf)).1

/-- A call that is met finds the function that was recorded for it. -/
theorem Kept.call {name : Name} {arguments : List Node} {values : List Value}
    (h : Kept A d ⟨.expression, steps + 1, calls, .call name arguments, m, x⟩)
    (hvalues : evaluateAll (evaluate settings steps calls) arguments m = (.ok values, m₁)) :
    ∃ f g, A.annotations[x.place]? = some ⟨.call name arguments, .call f⟩ ∧
      lookupFunction name values.length m₁ = (.ok g, m₁) ∧ f.Agrees g ∧ f.KnownIn A x.function := by
  cases h with
  | expression hplaced htype ha hnode =>
      obtain ⟨_, f, others, hf, heq, _, g, hg, hagrees⟩ := hplaced.function htype hnode hvalues
      rw [heq] at ha
      exact ⟨f, g, ha.head, hg, hagrees, hplaced.known hf⟩

theorem EntersBody.of_agrees {program : Node} {opening : CheckState} {f g : Function} {place : Nat}
    {entry : CheckState} (hagrees : f.Agrees g) (h : EntersBody program opening f place entry) :
    EntersBody program opening g place entry := by
  cases h with
  | intro hprogram haction henter hplace =>
      rw [← hagrees.name] at hprogram henter
      exact .intro hprogram (hagrees.action.trans haction) henter hplace

end Calls

section Coverage

/-- A point with a site. -/
def Point.at (p : Point Unit) (x : Site) : Point Site :=
  ⟨p.role, p.steps, p.calls, p.node, p.machine, x⟩

/-- A point that the run of another one meets has a site if that one was checked. -/
theorem Part.located {p q : Point Unit} (hpart : Part settings .trivial p q)
    (hp : Kept A d (p.at x)) :
    ∃ y, LocatedPart settings A.program A.opening (p.at x) (q.at y) := by
  cases hpart with
  | group => exact ⟨_, .group⟩
  | left => exact ⟨_, .left⟩
  | right hleft hand hor => exact ⟨_, .right hleft hand hor⟩
  | offset hpresent hlookup hlist => exact ⟨_, .offset hpresent hlookup hlist⟩
  | argument hbefore => exact ⟨_, .argument hbefore⟩
  | element hbefore => exact ⟨_, .element hbefore⟩
  | body hvalues hg haction hnote hbind hbefore _ =>
      -- The function is declared, so its body is checked somewhere.
      obtain ⟨f, g, _, hg', hagrees, hprint | ⟨place, _, _, _, hdeclared⟩⟩ := Kept.call hp hvalues
      · rw [hg] at hg'
        cases hg'
        rw [hagrees.action, hprint] at haction
        cases haction
      · rw [hg] at hg'
        cases hg'
        obtain ⟨_, _, _, _, entry, _, _, henters⟩ := hdeclared
        exact ⟨_, .body hvalues hg haction hnote hbind hbefore (henters.of_agrees hagrees)⟩
  | initial hpresent => exact ⟨_, .initial hpresent⟩
  | declared hpresent => exact ⟨_, .declared hpresent⟩
  | evaluated => exact ⟨_, .evaluated⟩
  | returned hpresent => exact ⟨_, .returned hpresent⟩
  | assigned => exact ⟨_, .assigned⟩
  | targetOffset hvalue hpresent hlookup hlist =>
      exact ⟨_, .targetOffset hvalue hpresent hlookup hlist⟩
  | condition => exact ⟨_, .condition⟩
  | @branch _ _ _ _ _ _ _ _ b _ _ _ _ _ htest hnote hbranch hbefore =>
      cases b with
      | true =>
          rw [if_pos rfl] at hbranch
          subst hbranch
          exact ⟨_, .thenBranch htest hnote hbefore⟩
      | false =>
          rw [if_neg Bool.false_ne_true] at hbranch
          subst hbranch
          exact ⟨_, .elseBranch htest hnote hbefore⟩
  | repeated => exact ⟨_, .repeated⟩
  | iteration htest hbefore => exact ⟨_, .iteration htest hbefore⟩
  | again htest hbody => exact ⟨_, .again htest hbody⟩
  | subject => exact ⟨_, .subject⟩
  | compared hvalue hbind hpassed harm hpresent =>
      exact ⟨_, .compared hvalue hbind hpassed harm hpresent⟩
  | chosen hvalue hbind hpassed harm hmeets hposition hnote =>
      subst hposition
      exact ⟨_, .chosen hvalue hbind hpassed harm hmeets hnote⟩
  | armBody hbefore => exact ⟨_, .armBody hbefore⟩

variable {program : Node} {trace trace' : Trace} {annotations : List Annotation}
  {c : CheckState} {heap : Heap} {p : Point Unit}

theorem Starts.located (hprogram : program.IsProgram)
    (hcheck : BlockScript.checkProgram [] trace program = (.ok annotations, c))
    (hp : Starts settings .trivial steps program (.start [] heap trace') () p) :
    ∃ x, LocatedStart settings program (opening [] trace) steps (.start [] heap trace')
      (p.at x) := by
  have hadmits : AdmitsProgram .names program := nofun
  cases hp with
  | «global» heq hbefore => exact ⟨_, .global heq hbefore⟩
  | function heq hglobals hbefore => exact ⟨_, .function heq hglobals hbefore⟩
  | main heq hglobals hrun hmain haction hnote hcalls hbind hbefore _ =>
      subst heq
      obtain ⟨_, _, hdeclares, _⟩ := declares_of_checkProgram hprogram hadmits hcheck
      obtain ⟨root, main, hroot, _, _, hfind, hagrees⟩ := hdeclares.main hglobals hrun hmain
      obtain ⟨hmem, _⟩ := of_findFunction? hfind
      rcases hroot.known main hmem with hprint | ⟨place, _, hdeclared⟩
      · rw [hagrees.action, hprint] at haction
        cases haction
      · obtain ⟨_, _, _, _, entry, _, _, henters⟩ := hdeclared
        exact ⟨_, .main rfl hglobals hrun hmain haction hnote hcalls hbind hbefore
          (henters.of_agrees hagrees)⟩

/-- Every point that the run of a checked program reaches has a site. -/
theorem Reached.located (hprogram : program.IsProgram)
    (hcheck : BlockScript.checkProgram [] trace program = (.ok annotations, c))
    (hp : Reached settings .trivial steps program (.start [] heap trace') () p) :
    ∃ x, Located settings program (opening [] trace) steps (.start [] heap trace') (p.at x) := by
  have hadmits : AdmitsProgram .names program := nofun
  obtain ⟨p₀, hp₀, hpath⟩ := hp
  induction hpath with
  | refl =>
      obtain ⟨x, hx⟩ := hp₀.located hprogram hcheck
      exact ⟨x, _, hx, .refl⟩
  | tail _ hq ih =>
      obtain ⟨x, hx⟩ := ih
      obtain ⟨y, hy⟩ := hq.located (hx.kept hprogram hadmits hcheck)
      obtain ⟨start, hstart, hpath⟩ := hx
      exact ⟨y, start, hstart, hpath.tail hy⟩

end Coverage

end Running
end BlockScript
