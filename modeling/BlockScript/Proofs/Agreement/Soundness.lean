import BlockScript.Proofs.Agreement.Reached
import BlockScript.Proofs.Agreement.Resolution

/-!
# Types of checked programs are sound

The types that checking records say of the values of a run only as much as a program lets them.
A program keeps to what they can say if it has no lists, gives every declaration a value, leaves
no type open, hides no global and returns wherever a value is due.  While such a program runs each
variable holds a value of the type that was recorded for it, and each expression comes to one.
The run ends with an integer, or fails where no type could tell.
-/

namespace BlockScript

namespace Room

/-- Each variable of a scope has a value of the type that was recorded for what has bound it; the
scope of a switch has no other variable than the one that keeps the value. -/
def IsTyped (annotations : List Annotation) : Room → Scope → Prop
  | block origins, s =>
      List.Forall₂ (fun (o : Origin) w => ∃ v : Variable, o.Records annotations v ∧
        w.name = v.name ∧ v.type = some w.value.type) origins s.vars
  | switch, s => ∀ v ∈ s.vars, v.name = Running.switchName

end Room

/-- The variables of a machine are those of some rooms, each with a value of its type. -/
def Machine.IsTyped (m : Machine) (annotations : List Annotation) (rooms : List Room) : Prop :=
  List.Forall₂ (Room.IsTyped annotations) rooms m.scopes.toList

section Values

theorem Value.HasType.type {v : Value} {type : Option StaticType} (h : v.HasType type) :
    type = some v.type := by
  obtain ⟨s, rfl, _, htype⟩ := h
  exact htype

theorem Room.Holds.isTyped {annotations : List Annotation} {room : Room} {s : Scope}
    (h : room.Holds .types annotations s) : room.IsTyped annotations s := by
  cases room with
  | block origins =>
      refine List.Forall₂.imp ?_ h
      rintro o w ⟨v, hv, hagrees⟩
      exact ⟨v, hv, hagrees.name, hagrees.fits.type⟩
  | switch => exact h

theorem isTyped_of_holds {m : Machine} {annotations : List Annotation} {rooms : List Room}
    (h : List.Forall₂ (Room.Holds .types annotations) rooms m.scopes.toList) :
    m.IsTyped annotations rooms :=
  h.imp fun _ _ hroom => hroom.isTyped

end Values

namespace Running

open BlockScript.Computation Typing CheckState

/-- What a point meets and what it comes to has the types that were recorded. -/
structure Point.IsTyped (settings : Settings) (A : Analysis) (p : Point Site) : Prop where
  /-- The variables have values of their types. -/
  machine : p.machine.IsTyped A.annotations p.companion.opened
  /-- An expression comes to a value of its type, and the variables keep theirs. -/
  expression : ∀ v m, p.role = .expression →
    evaluate settings p.steps p.calls p.node p.machine = (.ok v, m) →
    m.IsTyped A.annotations p.companion.opened ∧ ∃ finding,
      A.annotations[p.companion.place]? = some ⟨p.node, finding⟩ ∧
      finding.type? = some (some v.type)
  /-- A statement leaves variables with values of their types. -/
  statement : ∀ ending m, p.role = .statement →
    execute settings p.steps p.calls p.node p.machine = (.ok ending, m) →
    m.IsTyped A.annotations (p.companion.behind p.node).opened

/-- The runs of a program keep to the types that were recorded. -/
structure IsSound (settings : Settings) (steps : Nat) (A : Analysis) (start : Machine) : Prop where
  /-- Every point that is reached has a site, -/
  located : ∀ p, Reached settings .trivial steps A.program start () p →
    ∃ x, Located settings A.program A.opening steps start (p.at x)
  /-- and there everything is typed. -/
  points : ∀ p, Located settings A.program A.opening steps start p → p.IsTyped settings A
  /-- A run that comes to a value comes to an integer, -/
  result : ∀ v m, runProgram settings steps A.program start = (.ok v, m) →
    (∃ n, v = .scalar (.integer n)) ∧
      m.IsTyped A.annotations (Site.ending A.opening A.program).opened
  /-- and one that fails does so as no type could tell. -/
  failure : ∀ e m, runProgram settings steps A.program start = (.error e, m) →
    e.IsTolerated settings ∨ e = .endless ∧ settings.calls = 0

variable {A : Analysis} {d : Discipline} {root : Scope} {m m' : Machine} {x : Site}
  {own callers : List Layer} {settings : Settings} {steps calls : Nat}

section Points

/-- An expression that is met comes to a value that fits the type recorded for it. -/
theorem Kept.evaluated {node : Node} {v : Value}
    (h : Kept A d ⟨.expression, steps, calls, node, m, x⟩)
    (hvalue : evaluate settings steps calls node m = (.ok v, m')) :
    List.Forall₂ (Room.Holds d A.annotations) x.opened m'.scopes.toList ∧ ∃ type finding,
      A.annotations[x.place]? = some ⟨node, finding⟩ ∧ finding.type? = some type ∧
      d.Fits type v := by
  cases h with
  | expression hplaced htype ha hnode =>
      obtain ⟨hplaced', hv⟩ := hplaced.evaluated htype hnode hvalue
      obtain ⟨finding, others, hhead, hfinding⟩ := typeOf_head htype
      rw [hhead] at ha
      exact ⟨hplaced'.toAligned.holds, _, finding, ha.head, hfinding, hv⟩

/-- Behind a statement that is met the machine is laid out as the site behind it says. -/
theorem Kept.executed {node : Node} {ending : Completion}
    (h : Kept A d ⟨.statement, steps, calls, node, m, x⟩)
    (hrun : execute settings steps calls node m = (.ok ending, m')) :
    List.Forall₂ (Room.Holds d A.annotations) (x.behind node).opened m'.scopes.toList := by
  cases h with
  | statement hplaced hcheck ha hnode hf =>
      exact (hplaced.behind hcheck ha hnode hf hrun).toAligned.holds
  | arm hplaced hbody _ hnodes hf =>
      have hbehind := ((hplaced.stepsAgree settings steps).arms calls hbody hnodes hf hplaced.sees
        hplaced.stacked).of_ok hrun
      exact (hplaced.of_stacked hbehind.stacked).toAligned.holds
  | «global» hplaced hscopes hcheck ha hadmits =>
      have hstacked := (ensures_global_agrees hplaced.settled.grounded hscopes hcheck hadmits
        hplaced.stacked).of_ok hrun
      obtain ⟨found, _, _, hadds, rfl⟩ := global_eq_ok hcheck
      rw [hadds.scopes, hscopes] at hstacked
      exact hstacked.holds (List.rel_append hplaced.rooms hplaced.callers)
        (.cons (.declaration ha.head) hplaced.globals)
  | function haligned hscopes hcheck hadmits =>
      have hstacked := (ensures_function_agrees hscopes hcheck hadmits haligned.stacked).of_ok hrun
      obtain ⟨f, _, _, _, _, hafter, _⟩ := checked_of_check hscopes hcheck hadmits
      rw [hafter] at hstacked
      exact hstacked.holds (List.rel_append haligned.rooms haligned.callers) haligned.globals

theorem Kept.isTyped {p : Point Site} (h : Kept A .types p) : p.IsTyped settings A := by
  obtain ⟨role, steps, calls, node, m, x⟩ := p
  refine ⟨isTyped_of_holds h.holds, ?_, ?_⟩
  · rintro v m' rfl hvalue
    obtain ⟨hholds, type, finding, hrecord, hfinding, hfits⟩ := h.evaluated hvalue
    refine ⟨isTyped_of_holds hholds, finding, hrecord, ?_⟩
    rw [hfinding, Value.HasType.type hfits]
  · rintro ending m' rfl hrun
    exact isTyped_of_holds (h.executed hrun)

end Points

section Programs

variable {globals functions : List Node} {c c₁ c₂ : CheckState}

/-- Behind all declarations the root has the variables of the globals. -/
theorem Declares.ending (h : Declares A d globals functions c₁ c₂)
    (hm : Stacked d c₂.scopes.current [] m.scopes.toList) :
    List.Forall₂ (Room.Holds d A.annotations) (Site.ending A.opening A.program).opened
      m.scopes.toList := by
  have hall : Declares A d globals (functions ++ []) c₁ c₂ := by rwa [List.append_nil]
  obtain ⟨_, root, _, _, _, _, _, hroot, _, _, hend, _⟩ := hall.rootedAt
  cases hend
  rw [hroot.rooted.scopes] at hm
  rw [h.program]
  exact (hroot.aligned hm).holds

/-- A program that halves a number unless that is too small, which a global keeps then. -/
def halvingText : String :=
  "VAR n: Integer = 10; FUN half(m: Integer): Integer DO IF m > n DO RETURN m / 2; ELSE n = m; " ++
    "RETURN m; END END FUN main(): Integer DO LET k: Integer = 12; RETURN half(k); END"

/-- The tree of that program. -/
def halvingProgram : Node :=
  .source [.global "n" "Integer" true (.literal (.integer 10))]
    [.function "half" ["m"] ["Integer"] "Integer"
      [.conditional (.binary ">" (.access "m" .absent) (.access "n" .absent))
        [.returning (.binary "/" (.access "m" .absent) (.literal (.integer 2)))]
        [.assignment (.access "n" .absent) (.access "m" .absent),
          .returning (.access "m" .absent)]],
      .function "main" [] [] "Integer"
        [.declaration "k" "Integer" (.literal (.integer 12)),
          .returning (.call "half" [.access "k" .absent])]]

set_option maxRecDepth 20000 in
theorem parse_halvingText : Grammar.parseProgram halvingText = .ok halvingProgram := by cbv

set_option maxRecDepth 20000 in
theorem check_halvingProgram : ∃ annotations checked,
    BlockScript.checkProgram [] (.start 0) halvingProgram = (.ok annotations, checked) := by
  have hok : (BlockScript.checkProgram [] (.start 0) halvingProgram).1.isOk = true := by cbv
  exact exists_of_isOk hok

end Programs

end Running
end BlockScript
