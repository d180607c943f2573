import BlockScript.Proofs.Agreement.Origins
import BlockScript.Proofs.Agreement.Programs
import BlockScript.Proofs.Typing.Places
import BlockScript.Proofs.Typing.Traces

/-!
# Agreement at the sites of a run

Where the run of a checked program stands, the check has a state in which it has checked the
node that is met, and has left the records of this node at its place.  The scopes of the
machine are those of the text, as the rooms of the site say.

A row of statements keeps all this from one statement to the next one.
-/

namespace BlockScript

/-- The outermost scope. -/
def Chain.outermost (c : Chain) : Scope := c.outer.getLastD c.current

/-- The check of a program: the state that it starts from, and what it has recorded. -/
structure Analysis where
  program : Node
  opening : CheckState
  annotations : List Annotation

/-- A function is declared at a place, recorded there, and its body is checked from there. -/
def Function.DeclaredAt (A : Analysis) (place : Nat) (f : Function) : Prop :=
  ∃ parameters parameterTypes returnType body entry,
    A.annotations[place]? =
      some ⟨.function f.name parameters parameterTypes returnType body, .function f⟩ ∧
    f.action = .declared parameters body ∧
    Running.EntersBody A.program A.opening f place entry

/-- The function that prints, or one that is declared at the place of a function or before it. -/
def Function.KnownIn (A : Analysis) (function : Option Nat) (f : Function) : Prop :=
  f = .print ∨ ∃ place last, function = some last ∧ place ≤ last ∧ f.DeclaredAt A place

namespace Chain

theorem outermost_of_toList {c : Chain} {ss : List Scope} {s : Scope}
    (h : c.toList = ss ++ [s]) : c.outermost = s := by
  unfold toList at h
  unfold outermost
  cases ss with
  | nil =>
      obtain ⟨hcurrent, houter⟩ := List.cons.inj h
      rw [houter, hcurrent]
      rfl
  | cons current ss =>
      rw [(List.cons.inj h).2]
      exact List.getLastD_concat

end Chain

namespace Site

variable (x : Site) {node : Node}

theorem behind_rooms (hnode : ∀ name typeName value, node ≠ .declaration name typeName value) :
    (x.behind node).rooms = x.rooms := by
  cases node with
  | declaration name typeName value => exact absurd rfl (hnode name typeName value)
  | _ => rfl

theorem behind_globals
    (hnode : ∀ name typeName isMutable value, node ≠ .global name typeName isMutable value) :
    (x.behind node).globals = x.globals := by
  cases node with
  | «global» name typeName isMutable value => exact absurd rfl (hnode name typeName isMutable value)
  | _ => rfl

theorem not_global_of_inner (hnode : node.IsInner) (name typeName : Name) (isMutable : Bool)
    (value : Node) : node ≠ .global name typeName isMutable value := by
  rintro rfl
  exact hnode

end Site

/-- The scopes of a machine are those of the text, as a site says. -/
structure Aligned (A : Analysis) (d : Discipline) (root : Scope) (m : Machine) (x : Site)
    (own callers : List Layer) : Prop where
  sees : Sees root x.state.scopes own
  stacked : Stacked d root (own ++ callers) m.scopes.toList
  rooms : List.Forall₂ (Room.Agrees A.annotations) x.rooms own
  callers : List.Forall₂ (Room.Agrees A.annotations) x.callers callers
  globals : List.Forall₂ (Origin.Records A.annotations) x.globals root.vars

section Rooms

open Typing

variable {A : Analysis} {d : Discipline} {root : Scope} {m : Machine} {x : Site}
  {own callers : List Layer}

/-- The rooms behind a statement are those of the scopes that its check leads to. -/
theorem Aligned.behind {node : Node} {a : List Annotation} {c' : CheckState}
    (h : Aligned A d root m x (.scope x.state.scopes.current :: own) callers)
    (hinner : node.Every Node.IsInner) (hcheck : Typing.check node x.state = (.ok a, c'))
    (ha : RecordedAt A.annotations x.place a) :
    List.Forall₂ (Room.Agrees A.annotations) (x.behind node).rooms
      (.scope c'.scopes.current :: own) := by
  rcases check_scopes hinner hcheck with
    ⟨name, typeName, value, v, others, rfl, hadds, rfl⟩ | ⟨hnode, hscopes⟩
  · rw [hadds.scopes]
    have hrooms := h.rooms
    change List.Forall₂ _ (Room.bind (.declaration x.place) x.rooms) _
    generalize x.rooms = rooms at hrooms ⊢
    cases hrooms with
    | @cons room _ rooms _ hroom hrest =>
        cases room with
        | switch => exact hroom.elim
        | block origins => exact .cons (.cons (.declaration ha.head) hroom) hrest
  · rw [x.behind_rooms hnode, hscopes]
    exact h.rooms

theorem Aligned.holds (h : Aligned A d root m x own callers) :
    List.Forall₂ (Room.Holds d A.annotations) x.opened m.scopes.toList :=
  h.stacked.holds (List.rel_append h.rooms h.callers) h.globals

end Rooms

namespace Running

open BlockScript.Computation Typing CheckState

variable {A : Analysis} {d : Discipline} {root : Scope} {m m' m₁ m₂ : Machine} {x : Site}
  {own callers : List Layer} {settings : Settings} {steps calls : Nat}

/-- A function is declared at a place, its parameters are recorded there, and the records of
its body come next. -/
structure Entered (A : Analysis) (d : Discipline) (root : Scope) (f : Function)
    (parameters : List Name) (body : List Node) (place : Nat) (entry : CheckState) : Prop where
  isChecked : f.Checked d root parameters body entry
  recorded : ∃ a c, checkAll body entry = (.ok a, c) ∧ RecordedAt A.annotations (place + 1) a
  parameters : List.Forall₂ (Origin.Records A.annotations)
    (Origin.parameters place 0 parameters []) entry.scopes.current.vars
  functions : ∀ g ∈ entry.scopes.outermost.functions, g.KnownIn A (some place)

/-- All that is found at the root was checked as the analysis says. -/
structure Settled (A : Analysis) (d : Discipline) (root : Scope) : Prop where
  grounded : root.Grounded d
  entered : ∀ name arity f, root.findFunction? name arity = some f → f = .print ∨
    ∀ g place entry parameters body, f.Agrees g → g.action = .declared parameters body →
      EntersBody A.program A.opening g place entry → Entered A d root f parameters body place entry

/-- A machine and a site in a program that was checked. -/
structure Placed (A : Analysis) (d : Discipline) (root : Scope) (m : Machine) (x : Site)
    (own callers : List Layer) : Prop extends Aligned A d root m x own callers where
  settled : Settled A d root
  functions : ∀ f ∈ x.state.scopes.outermost.functions, f.KnownIn A x.function

/-- What holds where a node is met. -/
inductive Kept (A : Analysis) (d : Discipline) : Point Site → Prop
  | expression {root : Scope} {steps calls : Nat} {node : Node} {m : Machine} {x : Site}
      {own callers : List Layer} {expected : Option StaticType} {found : Typed} :
      Placed A d root m x own callers → typeOf x.state.scopes expected node = .ok found →
      RecordedAt A.annotations x.place found.annotations → node.Every (d.Admits root) →
      Kept A d ⟨.expression, steps, calls, node, m, x⟩
  | statement {root : Scope} {steps calls : Nat} {node : Node} {m : Machine} {x : Site}
      {own callers : List Layer} {c' : CheckState} {a : List Annotation} {f : Function} :
      Placed A d root m x (.scope x.state.scopes.current :: own) callers →
      check node x.state = (.ok a, c') → RecordedAt A.annotations x.place a →
      node.Every (d.Admits root) → x.state.enclosing = some f →
      Kept A d ⟨.statement, steps, calls, node, m, x⟩
  | arm {root : Scope} {steps calls : Nat} {value : Node} {body : List Node} {m : Machine}
      {x : Site} {own callers : List Layer} {c' : CheckState} {a : List Annotation}
      {f : Function} :
      Placed A d root m x own callers → Typing.inScope (checkAll body) x.state = (.ok a, c') →
      RecordedAt A.annotations (x.place + value.recorded.length) a →
      Node.EveryOf (d.Admits root) body → x.state.enclosing = some f →
      Kept A d ⟨.statement, steps, calls, .arm value body, m, x⟩
  | global {root : Scope} {steps calls : Nat} {name typeName : Name} {isMutable : Bool}
      {value : Node} {m : Machine} {x : Site} {c' : CheckState} {a : List Annotation} :
      Placed A d root m x [] [] → x.state.scopes = ⟨root, []⟩ →
      check (.global name typeName isMutable value) x.state = (.ok a, c') →
      RecordedAt A.annotations x.place a → d.AdmitsGlobal root typeName value →
      Kept A d ⟨.statement, steps, calls, .global name typeName isMutable value, m, x⟩
  | function {root : Scope} {steps calls : Nat} {name returnType : Name}
      {parameters parameterTypes : List Name} {body : List Node} {m : Machine} {x : Site}
      {c' : CheckState} {a : List Annotation} :
      Aligned A d root m x [] [] → x.state.scopes = ⟨root, []⟩ →
      check (.function name parameters parameterTypes returnType body) x.state = (.ok a, c') →
      d.AdmitsFunction root parameters parameterTypes returnType body →
      Kept A d ⟨.statement, steps, calls,
        .function name parameters parameterTypes returnType body, m, x⟩

/-- Where a node is met the machine is laid out as the run has opened its scopes. -/
theorem Kept.holds {p : Point Site} (h : Kept A d p) :
    List.Forall₂ (Room.Holds d A.annotations) p.companion.opened p.machine.scopes.toList := by
  cases h with
  | expression hplaced | statement hplaced | arm hplaced | «global» hplaced =>
      exact hplaced.toAligned.holds
  | function haligned => exact haligned.holds

section Machines

theorem Placed.of_stacked (h : Placed A d root m x own callers)
    (hm : Stacked d root (own ++ callers) m'.scopes.toList) : Placed A d root m' x own callers :=
  { h with stacked := hm }

theorem Placed.forward (h : Placed A d root m x own callers) (nodes : List Node) :
    Placed A d root m (x.forward nodes) own callers :=
  ⟨⟨h.sees, h.stacked, h.rooms, h.callers, h.globals⟩, h.settled, h.functions⟩

theorem Placed.stepsAgree (h : Placed A d root m x own callers) (settings : Settings)
    (steps : Nat) : StepsAgree d settings root steps :=
  Running.stepsAgree settings h.settled.grounded steps

theorem Placed.evaluated (h : Placed A d root m x own callers) {node : Node}
    {expected : Option StaticType} {found : Typed} {v : Value}
    (htype : typeOf x.state.scopes expected node = .ok found) (hnode : node.Every (d.Admits root))
    (heval : evaluate settings steps calls node m = (.ok v, m')) :
    Placed A d root m' x own callers ∧ d.Fits found.type v := by
  obtain ⟨hm, hv⟩ :=
    ((h.stepsAgree settings steps).evaluation calls htype hnode h.sees h.stacked).of_ok heval
  exact ⟨h.of_stacked hm, hv⟩

theorem Placed.noted (h : Placed A d root m x own callers) {level : Nat} {message : String}
    (hnote : note settings level message m = (.ok (), m')) :
    Placed A d root m' x own callers := by
  have hstacked : (note settings level message).Ensures m
      (fun _ m' => Stacked d root (own ++ callers) m'.scopes.toList) (d.Accepts settings) :=
    ensures_note_agrees h.stacked
  exact h.of_stacked (hstacked.of_ok hnote)

theorem Placed.enter (h : Placed A d root m x own callers) :
    Placed A d root m.enter x.enter (.scope x.enter.state.scopes.current :: own) callers where
  sees := sees_enter h.sees
  stacked := h.stacked.enter
  rooms := .cons .nil h.rooms
  callers := h.callers
  globals := h.globals
  settled := h.settled
  functions := by
    have hfunctions := h.functions
    obtain ⟨known, _, hlist⟩ := h.sees
    have hentered : x.enter.state.scopes.toList = (.empty :: Layer.view own) ++ [known] := by
      change Scope.empty :: x.state.scopes.toList = _
      rw [hlist]
      rfl
    rw [Chain.outermost_of_toList hlist] at hfunctions
    rw [Chain.outermost_of_toList hentered]
    exact hfunctions

end Machines

section Rows

variable {node : Node} {a : List Annotation} {c' : CheckState} {f : Function}

theorem Placed.behind
    (h : Placed A d root m x (.scope x.state.scopes.current :: own) callers)
    (hcheck : check node x.state = (.ok a, c')) (ha : RecordedAt A.annotations x.place a)
    (hnode : node.Every (d.Admits root)) (hf : x.state.enclosing = some f)
    {ending : Completion} (hrun : execute settings steps calls node m = (.ok ending, m')) :
    Placed A d root m' (x.behind node) (.scope (x.behind node).state.scopes.current :: own)
      callers := by
  have hinner : node.Every Node.IsInner := Discipline.inner_of_admits hnode
  have hcontinues := check_continues hinner hcheck
  have hstate : (x.behind node).state = c' := congrArg Prod.snd hcheck
  rw [hstate]
  have hbehind := ((h.stepsAgree settings steps).execution calls hcheck hnode hf h.sees
    h.stacked).of_ok hrun
  have hsees : Sees root c'.scopes (.scope c'.scopes.current :: own) :=
    sees_continues hcontinues h.sees
  refine ⟨⟨?_, hbehind.stacked, h.toAligned.behind hinner hcheck ha, h.callers, ?_⟩, h.settled, ?_⟩
  · rw [hstate]
    exact hsees
  · rw [x.behind_globals (Site.not_global_of_inner hinner.self)]
    exact h.globals
  · rw [hstate]
    have hfunctions := h.functions
    obtain ⟨known, _, hlist⟩ := h.sees
    obtain ⟨known', _, hlist'⟩ := hsees
    rw [Chain.outermost_of_toList hlist] at hfunctions
    rw [Chain.outermost_of_toList hlist']
    have hknown : known' = known := by
      unfold Chain.toList at hlist hlist'
      have houter := (List.cons.inj hlist).2
      have houter' := (List.cons.inj hlist').2
      rw [hcontinues.outer, houter] at houter'
      exact (List.cons.inj (List.append_cancel_left houter')).1.symm
    rw [hknown]
    exact hfunctions

theorem executeAll_cons_finished {execute : Node → Running Completion} {nodes : List Node}
    (h : executeAll execute (node :: nodes) m = (.ok .finished, m')) :
    ∃ m₁, execute node m = (.ok .finished, m₁) ∧
      executeAll execute nodes m₁ = (.ok .finished, m') := by
  obtain ⟨ending, m₁, hnode, hrest⟩ := bind_eq_ok.mp h
  cases ending with
  | finished => exact ⟨m₁, hnode, hrest⟩
  | returned v => cases hrest

/-- Behind some statements of a row the next one is met as it was checked. -/
theorem Placed.row (h : Placed A d root m x (.scope x.state.scopes.current :: own) callers)
    {before behind : List Node}
    (hcheck : checkAll (before ++ node :: behind) x.state = (.ok a, c'))
    (ha : RecordedAt A.annotations x.place a)
    (hnodes : Node.EveryOf (d.Admits root) (before ++ node :: behind))
    (hf : x.state.enclosing = some f)
    (hbefore : executeAll (execute settings steps calls) before m = (.ok .finished, m')) :
    Kept A d ⟨.statement, steps, calls, node, m', x.along before⟩ := by
  induction before generalizing m x a with
  | nil =>
      cases hbefore
      obtain ⟨found, others, c₁, hnode, _, rfl⟩ := checkAll_cons hcheck
      exact .statement h hnode ha.left hnodes.1 hf
  | cons first before ih =>
      obtain ⟨m₁, hfirst, hbefore⟩ := executeAll_cons_finished hbefore
      obtain ⟨found, others, c₁, hchecked, hothers, rfl⟩ := checkAll_cons hcheck
      have hcontinues := check_continues (Discipline.inner_of_admits hnodes.1) hchecked
      have hstate : (x.behind first).state = c₁ := congrArg Prod.snd hchecked
      rw [Site.along_cons]
      refine ih (h.behind hchecked ha.left hnodes.1 hf hfirst) ?_
        (ha.right (nodes_of_check hchecked)) hnodes.2 ?_ hbefore
      · rw [hstate]
        exact hothers
      · rw [hstate]
        exact hcontinues.enclosing.trans hf

/-- The statements of a block are met as they were checked. -/
theorem Placed.block (h : Placed A d root m x own callers) {before behind : List Node}
    (hcheck : Typing.inScope (checkAll (before ++ node :: behind)) x.state = (.ok a, c'))
    (ha : RecordedAt A.annotations x.place a)
    (hnodes : Node.EveryOf (d.Admits root) (before ++ node :: behind))
    (hf : x.state.enclosing = some f)
    (hbefore : executeAll (execute settings steps calls) before m.enter = (.ok .finished, m')) :
    Kept A d ⟨.statement, steps, calls, node, m', x.enter.along before⟩ := by
  obtain ⟨c₁, hinner, _⟩ := inScope_eq_ok hcheck
  exact h.enter.row hinner ha hnodes hf hbefore

end Rows

end Running
end BlockScript
