import BlockScript.Proofs.Agreement.Reached
import BlockScript.Proofs.Agreement.Resolution

/-!
# Bindings of a run and bindings of its text

A checked program binds its names while it runs as its check has recorded.  A call runs the
function that was recorded for it.  A name that was recorded as a local variable or a parameter
stands for the variable that this declaration has made, in the block of the call under way that
is open.  A name that was recorded as a global stands for that global, unless a function further
up the calls has a variable of this name.
-/

namespace BlockScript
namespace Running

open BlockScript.Computation Typing CheckState

/-- What a name stands for in a run, from what it stands for in the text: each is known by its
origin and by the number of scopes in front of it. -/
inductive SameBinding (x : Site) : Nat → Origin → Nat → Origin → Prop
  /-- Inside a function it is the same, in the block that is open. -/
  | inside {depth depth' : Nat} {o : Origin} : depth < x.inner → depth' < x.rooms.length →
      ((x.rooms.take depth').filter Room.isBlock).length = depth → SameBinding x depth o depth' o
  /-- A global is the same. -/
  | global {o : Origin} : SameBinding x x.inner o (x.rooms.length + x.callers.length) o
  /-- A global is hidden in a function further up the calls. -/
  | hidden {depth' : Nat} {o o' : Origin} : x.rooms.length ≤ depth' →
      depth' < x.rooms.length + x.callers.length → SameBinding x x.inner o depth' o'

/-- A name stands at a machine for what was recorded of the node at a place. -/
def ResolvesAsRecorded (A : Analysis) (x : Site) (m : Machine) (name : Name) (access : Node) :
    Prop :=
  ∃ declared depth o w depth' o',
    A.annotations[x.place]? = some ⟨access, .access declared⟩ ∧ o.Records A.annotations declared ∧
    ResolvesTo name x.state.scopes.toList x.blocks depth declared o ∧
    lookupVariable name m = (.ok w, m) ∧ ResolvesTo name m.scopes.toList x.opened depth' w o' ∧
    SameBinding x depth o depth' o'

/-- The function of a name and a number of parameters is the one that was recorded of a call: the
one that prints, or one that is declared in the text where the call stands or before it. -/
def RunsRecorded (A : Analysis) (x : Site) (m : Machine) (name : Name) (arity : Nat) (call : Node) :
    Prop :=
  ∃ f g, A.annotations[x.place]? = some ⟨call, .call f⟩ ∧ lookupFunction name arity m = (.ok g, m) ∧
    f.Agrees g ∧ f.KnownIn A x.function ∧
    ∀ place place' entry, f.DeclaredAt A place → EntersBody A.program A.opening g place' entry →
      place' = place

/-- The names that a point meets are bound as they were recorded. -/
structure Point.BindsAsRecorded (settings : Settings) (A : Analysis) (p : Point Site) : Prop where
  /-- All variables are those that the site knows of. -/
  holds : List.Forall₂ (Room.Holds .names A.annotations) p.companion.opened p.machine.scopes.toList
  call : ∀ name arguments steps values m, p.role = .expression → p.node = .call name arguments →
    p.steps = steps + 1 →
    evaluateAll (evaluate settings steps p.calls) arguments p.machine = (.ok values, m) →
    RunsRecorded A p.companion m name values.length p.node
  access : ∀ name offset, p.role = .expression → p.node = .access name offset →
    ResolvesAsRecorded A p.companion p.machine name p.node
  assignment : ∀ target value steps v m, p.role = .statement → p.node = .assignment target value →
    p.steps = steps + 1 → evaluate settings steps p.calls value p.machine = (.ok v, m) →
    ∃ name offset, target = .access name offset ∧ ResolvesAsRecorded A p.companion m name target

variable {A : Analysis} {d : Discipline} {root : Scope} {m m₁ : Machine} {x : Site}
  {own callers : List Layer} {settings : Settings} {steps calls : Nat}

section Names

variable {name : Name} {v w : Variable}

theorem lookupVariable_of_resolvesTo {rooms : List Room} {depth : Nat} {o : Origin}
    (hname : name.isBindable = true) (h : ResolvesTo name m.scopes.toList rooms depth w o) :
    lookupVariable name m = (.ok w, m) := by
  refine lookupVariable_of_chain hname ?_
  unfold Chain.lookupVariable
  rw [h.findSome?]

/-- A name that was recorded is resolved as it was. -/
theorem Placed.resolves (h : Placed A d root m x own callers) {expected : Option StaticType}
    {offset : Node} {found : Typed}
    (htype : typeOf x.state.scopes expected (.access name offset) = .ok found)
    (hname : Node.IsSpelled name) (ha : RecordedAt A.annotations x.place found.annotations) :
    ResolvesAsRecorded A x m name (.access name offset) := by
  obtain ⟨others, declared, _, hbindable, hlookup, rfl⟩ := typeOf_access htype
  obtain ⟨known, hbelow, hlist⟩ := h.sees
  have hfind := Chain.findSome?_of_lookupVariable hlookup
  rw [hlist] at hfind
  obtain ⟨depth, o, htext, ho, hdepth⟩ :=
    exists_resolvesTo h.rooms h.globals hbelow.vars hfind
  obtain ⟨depth', w, o', _, hrun, _, _, hroom⟩ :=
    h.stacked.resolves h.rooms h.callers hbelow.vars (switchName_of_spelled hname) htext ho
  refine ⟨declared, depth, o, w, depth', o', ha.head, ho, ?_,
    lookupVariable_of_resolvesTo hbindable hrun, hrun, ?_⟩
  · rw [hlist]
    exact htext
  · rcases Nat.lt_or_ge depth x.inner with hlt | hge
    · obtain ⟨hlt', hcount, rfl⟩ := hroom.inside hlt
      exact .inside hlt hlt' hcount
    · obtain rfl : depth = x.inner := Nat.le_antisymm hdepth hge
      obtain ⟨hfrom, hto, hsame⟩ := hroom.outside hge
      rcases Nat.lt_or_eq_of_le hto with hlt' | heq
      · exact .hidden hfrom hlt'
      · rw [hsame heq, heq]
        exact .global

end Names

section Points

theorem Kept.access {name : Name} {offset : Node}
    (h : Kept A d ⟨.expression, steps, calls, .access name offset, m, x⟩) :
    ResolvesAsRecorded A x m name (.access name offset) := by
  cases h with
  | expression hplaced htype ha hnode => exact hplaced.resolves htype hnode.1.inner ha

/-- The target of an assignment is resolved as it was recorded when its value has been found. -/
theorem Kept.assignment {target value : Node} {v : Value}
    (h : Kept A d ⟨.statement, steps + 1, calls, .assignment target value, m, x⟩)
    (hvalue : evaluate settings steps calls value m = (.ok v, m₁)) :
    ∃ name offset, target = .access name offset ∧ ResolvesAsRecorded A x m₁ name target := by
  obtain ⟨hplaced, hcheck, ha, hnode, _⟩ := h.inside nofun nofun nofun
  obtain ⟨_, name, offset, _, place, found, rfl, hplace, _, _, hfound, _, rfl⟩ :=
    assignment_eq_ok hcheck
  obtain ⟨hplaced', _⟩ := hplaced.evaluated hfound hnode.2.2 hvalue
  exact ⟨name, offset, rfl, hplaced'.resolves hplace hnode.2.1.1.inner ha.left⟩

/-- At a point that is met as it was checked names are bound as they were recorded. -/
theorem Kept.bindsAsRecorded {globals functions : List Node} {c₁ c₂ : CheckState}
    (hdeclares : Declares A d globals functions c₁ c₂) {p : Point Site} (h : Kept A .names p) :
    p.BindsAsRecorded settings A := by
  obtain ⟨role, steps, calls, node, m, x⟩ := p
  refine ⟨h.holds, ?_, ?_, ?_⟩
  · rintro name arguments steps values m₁ rfl rfl rfl hvalues
    obtain ⟨f, g, hrecord, hg, hagrees, hknown⟩ := h.call hvalues
    refine ⟨f, g, hrecord, hg, hagrees, hknown, ?_⟩
    rintro place place' entry ⟨_, _, _, _, _, _, _, henters⟩ henters'
    exact (hdeclares.unique (henters.of_agrees hagrees) henters').1
  · rintro name offset rfl rfl
    exact h.access
  · rintro target value steps v m₁ rfl rfl rfl hvalue
    exact h.assignment hvalue

end Points

/-- At every point that the run of a checked program reaches the names are bound as they were
recorded, however many steps the run takes and however deep its calls nest. -/
theorem bindings_agree {text : String} {program : Node} {trace : Trace}
    {annotations : List Annotation} {checked : CheckState}
    (hparse : Grammar.parseProgram text = .ok program)
    (hcheck : BlockScript.checkProgram [] trace program = (.ok annotations, checked))
    (settings : Settings) (steps : Nat) (heap : Heap) (trace' : Trace) :
    (∀ p, Reached settings .trivial steps program (.start [] heap trace') () p →
      ∃ x, Located settings program (opening [] trace) steps (.start [] heap trace') (p.at x)) ∧
    ∀ p, Located settings program (opening [] trace) steps (.start [] heap trace') p →
      p.BindsAsRecorded settings ⟨program, opening [] trace, annotations⟩ := by
  have hprogram : program.IsProgram := Grammar.isProgram_of_parse hparse
  have hadmits : AdmitsProgram .names program := nofun
  refine ⟨fun p hp => hp.located hprogram hcheck, fun p hp => ?_⟩
  have hkept := hp.kept hprogram hadmits hcheck
  cases program with
  | source globals functions =>
      obtain ⟨_, _, hdeclares, _⟩ := declares_of_checkProgram hprogram hadmits hcheck
      exact hkept.bindsAsRecorded hdeclares
  | _ => exact hprogram.elim

/-- Settings of a short run without messages. -/
def quietSettings : Settings := ⟨3, 3, false, false⟩

/-- The scope of `main` in the sample where it calls the function that assigns. -/
def hidingLocals : Scope := ⟨[boundVariable "n" true (.scalar (.integer 7))], []⟩

/-- The assignment of the sample. -/
def hidingAssignment : Node :=
  .assignment (.access "n" .absent) (.binary "+" (.access "n" .absent) (.literal (.integer 1)))

/-- The scope of the declarations of the sample. -/
def hidingRoot : Scope where
  vars := [boundVariable "n" true (.scalar (.integer 2))]
  functions := [
    declaredFunction "main" [] [.declaration "n" .missing (.literal (.integer 7)),
      .evaluation (.call "f" []), .returning (.access "n" .absent)],
    declaredFunction "f" [] [hidingAssignment], .print]

/-- A machine of the sample. -/
def hidingMachine (scopes : Chain) : Machine :=
  { Machine.start [] .empty (.start 0) with scopes := scopes }

theorem starts_hidingProgram :
    Starts quietSettings .trivial 10 hidingProgram (.start [] .empty (.start 0)) ()
      ⟨.statement, 10, 2, .evaluation (.call "f" []), hidingMachine ⟨hidingLocals, [hidingRoot]⟩,
        ()⟩ := by
  have hmain : (declaredFunction "main" [] [.declaration "n" .missing (.literal (.integer 7)),
      .evaluation (.call "f" []), .returning (.access "n" .absent)]).action =
        .declared [] ([.declaration "n" .missing (.literal (.integer 7))] ++
          .evaluation (.call "f" []) :: [.returning (.access "n" .absent)]) := rfl
  exact .main rfl rfl rfl rfl hmain rfl rfl rfl rfl trivial

theorem part_hidingAssignment :
    Part quietSettings .trivial
      ⟨.expression, 9, 2, .call "f" [], hidingMachine ⟨hidingLocals, [hidingRoot]⟩, ()⟩
      ⟨.statement, 8, 1, hidingAssignment, hidingMachine ⟨.empty, [hidingLocals, hidingRoot]⟩,
        ()⟩ := by
  have hf : (declaredFunction "f" [] [hidingAssignment]).action =
      .declared [] ([] ++ hidingAssignment :: []) := rfl
  exact .body rfl rfl hf rfl rfl rfl trivial

/-- In the sample the name that was recorded as a global stands for the local variable that hides
it. -/
theorem bindings_of_hidingProgram_agree :
    Grammar.parseProgram hidingText = .ok hidingProgram ∧ ∃ annotations checked x m,
      BlockScript.checkProgram [] (.start 0) hidingProgram = (.ok annotations, checked) ∧
      Located quietSettings hidingProgram (opening [] (.start 0)) 10
        (.start [] .empty (.start 0)) ⟨.statement, 8, 1, hidingAssignment,
          hidingMachine ⟨.empty, [hidingLocals, hidingRoot]⟩, x⟩ ∧
      ResolvesAsRecorded ⟨hidingProgram, opening [] (.start 0), annotations⟩ x m "n"
        (.access "n" .absent) := by
  obtain ⟨annotations, checked, hcheck⟩ := check_hidingProgram
  obtain ⟨hlocated, hbinds⟩ :=
    bindings_agree parse_hidingText hcheck quietSettings 10 .empty (.start 0)
  obtain ⟨x, hx⟩ := hlocated _
    ⟨_, starts_hidingProgram, .tail (.single .evaluated) part_hidingAssignment⟩
  obtain ⟨name, offset, heq, hresolves⟩ := (hbinds _ hx).assignment _ _ 7 _ _ rfl rfl rfl rfl
  cases heq
  exact ⟨parse_hidingText, annotations, checked, x, _, hcheck, hx, hresolves⟩

end Running
end BlockScript
