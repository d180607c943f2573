import BlockScript.Proofs.Agreement.Layers
import BlockScript.Proofs.Running.Sites

/-!
# What the variables of a run come from

The rooms of a site run along the scopes of a machine, and those of them that are blocks run
along the scopes of the text.  So a variable of either has an origin, the one at the same
position.  A name is resolved in both in the same way: the nearest scope that binds it counts.

A name that the text resolves inside a function, the run resolves to the same origin, in the
scopes of the call that is under way.  A name that the text resolves to a global, the run
resolves to that global, or to a variable of a call further up.
-/

namespace BlockScript

/-- The variable that a check has recorded for an origin. -/
inductive Origin.Records (annotations : List Annotation) : Origin → Variable → Prop
  | declaration {place : Nat} {node : Node} {v : Variable} :
      annotations[place]? = some ⟨node, .declaration v⟩ →
      Records annotations (.declaration place) v
  | parameter {place index : Nat} {name returnType p : Name}
      {parameters parameterTypes : List Name} {body : List Node} {f : Function}
      {type : StaticType} :
      annotations[place]? =
        some ⟨.function name parameters parameterTypes returnType body, .function f⟩ →
      parameters[index]? = some p → f.parameterTypes[index]? = some type →
      Records annotations (.parameter place index) ⟨p, p, some type, true, .nil⟩

namespace Room

/-- Whether a scope is one of the text. -/
def isBlock : Room → Bool
  | block _ => true
  | switch => false

/-- A scope that a run has opened is the one of a layer. -/
def Agrees (annotations : List Annotation) : Room → Layer → Prop
  | block origins, .scope s => List.Forall₂ (Origin.Records annotations) origins s.vars
  | switch, .switch _ => True
  | _, _ => False

/-- A scope that a run has opened is laid out as a scope of the machine: the variables of a block
come from its origins, one after the other. -/
def Holds (d : Discipline) (annotations : List Annotation) : Room → Scope → Prop
  | block origins, s =>
      List.Forall₂ (fun (o : Origin) w => ∃ v, o.Records annotations v ∧ v.Agrees d w)
        origins s.vars
  | switch, s => ∀ v ∈ s.vars, v.name = Running.switchName

end Room

namespace Site

/-- The scopes of the text that a run has opened and not left, and behind them the globals. -/
def blocks (x : Site) : List Room := x.rooms.filter Room.isBlock ++ [.block x.globals]

/-- The number of scopes of the text inside the function that runs. -/
def inner (x : Site) : Nat := (x.rooms.filter Room.isBlock).length

end Site

/-- The variable of a name among some variables, with its origin. -/
inductive BindsTo (name : Name) : List Variable → List Origin → Variable → Origin → Prop
  | here {v : Variable} {vs : List Variable} {o : Origin} {os : List Origin} :
      v.name.same name = true → BindsTo name (v :: vs) (o :: os) v o
  | behind {v w : Variable} {vs : List Variable} {o p : Origin} {os : List Origin} :
      w.name.same name = false → BindsTo name vs os v o → BindsTo name (w :: vs) (p :: os) v o

/-- The nearest scope that binds a name, counted from the innermost one, with the variable that
it binds and the origin of this variable. -/
inductive ResolvesTo (name : Name) : List Scope → List Room → Nat → Variable → Origin → Prop
  | here {s : Scope} {ss : List Scope} {origins : List Origin} {rooms : List Room} {v : Variable}
      {o : Origin} :
      BindsTo name s.vars origins v o → ResolvesTo name (s :: ss) (.block origins :: rooms) 0 v o
  | behind {s : Scope} {ss : List Scope} {room : Room} {rooms : List Room} {depth : Nat}
      {v : Variable} {o : Origin} :
      s.findVariable? name = none → ResolvesTo name ss rooms depth v o →
      ResolvesTo name (s :: ss) (room :: rooms) (depth + 1) v o

section Bindings

variable {name : Name} {v : Variable} {o : Origin}

theorem BindsTo.find? {vs : List Variable} {os : List Origin} (h : BindsTo name vs os v o) :
    vs.find? (fun v => v.name.same name) = some v := by
  induction h with
  | here hname => rw [List.find?_cons, hname]
  | behind hname _ ih => rw [List.find?_cons, hname, ih]

theorem exists_bindsTo {annotations : List Annotation} {vs : List Variable} {os : List Origin}
    (hrecords : List.Forall₂ (Origin.Records annotations) os vs)
    (hfind : vs.find? (fun v => v.name.same name) = some v) :
    ∃ o, BindsTo name vs os v o ∧ o.Records annotations v := by
  induction hrecords with
  | nil => cases hfind
  | @cons p w os vs hp _ ih =>
      rw [List.find?_cons] at hfind
      cases hname : w.name.same name with
      | true =>
          rw [hname] at hfind
          cases hfind
          exact ⟨p, .here hname, hp⟩
      | false =>
          rw [hname] at hfind
          obtain ⟨o, hbinds, ho⟩ := ih hfind
          exact ⟨o, .behind hname hbinds, ho⟩

/-- A variable of the machine has the origin of the one that it agrees with. -/
theorem BindsTo.agrees {d : Discipline} {vs ws : List Variable} {os : List Origin}
    (h : BindsTo name vs os v o) (hagrees : List.Forall₂ (Variable.Agrees d) vs ws) :
    ∃ w, BindsTo name ws os w o ∧ v.Agrees d w := by
  induction h generalizing ws with
  | here hname =>
      cases hagrees with
      | cons hv _ => exact ⟨_, .here (by rw [hv.name, hname]), hv⟩
  | behind hname _ ih =>
      cases hagrees with
      | cons hw hrest =>
          obtain ⟨w, hbinds, hagrees⟩ := ih hrest
          exact ⟨w, .behind (by rw [hw.name, hname]) hbinds, hagrees⟩

theorem ResolvesTo.findSome? {ss : List Scope} {rooms : List Room} {depth : Nat}
    (h : ResolvesTo name ss rooms depth v o) :
    (ss.findSome? fun s => s.findVariable? name) = some v := by
  induction h with
  | here hbinds => rw [List.findSome?_cons, Scope.findVariable?, hbinds.find?]
  | behind hnone _ ih => rw [List.findSome?_cons, hnone, ih]

end Bindings

section Resolution

variable {d : Discipline} {root known : Scope} {annotations : List Annotation} {name : Name}
  {own callers layers : List Layer} {rooms callerRooms : List Room} {globals : List Origin}
  {rs : List Scope} {v : Variable}

/-- A name that is found along some layers resolves to a variable of theirs or to a global. -/
theorem exists_resolvesTo (hrooms : List.Forall₂ (Room.Agrees annotations) rooms own)
    (hglobals : List.Forall₂ (Origin.Records annotations) globals root.vars)
    (hknown : known.vars = root.vars)
    (hfind : ((Layer.view own ++ [known]).findSome? fun s => s.findVariable? name) = some v) :
    ∃ depth o, ResolvesTo name (Layer.view own ++ [known])
      (rooms.filter Room.isBlock ++ [.block globals]) depth v o ∧ o.Records annotations v ∧
      depth ≤ (rooms.filter Room.isBlock).length := by
  induction hrooms with
  | nil =>
      simp only [Layer.view, List.filterMap_nil, List.nil_append, List.findSome?_singleton] at hfind
      rw [← hknown] at hglobals
      obtain ⟨o, hbinds, ho⟩ := exists_bindsTo hglobals hfind
      exact ⟨0, o, .here hbinds, ho, Nat.le_refl _⟩
  | @cons room layer rooms layers hroom _ ih =>
      cases room with
      | block origins =>
          cases layer with
          | switch isBound => exact hroom.elim
          | scope s =>
              rw [Layer.view_scope, List.cons_append, List.findSome?_cons] at hfind
              rw [Layer.view_scope, List.filter_cons_of_pos rfl, List.cons_append, List.cons_append]
              cases hs : s.findVariable? name with
              | some w =>
                  rw [hs] at hfind
                  cases hfind
                  obtain ⟨o, hbinds, ho⟩ := exists_bindsTo hroom hs
                  exact ⟨0, o, .here hbinds, ho, Nat.zero_le _⟩
              | none =>
                  rw [hs] at hfind
                  obtain ⟨depth, o, hresolves, ho, hle⟩ := ih hfind
                  exact ⟨depth + 1, o, .behind hs hresolves, ho, Nat.succ_le_succ hle⟩
      | switch =>
          cases layer with
          | scope s => exact hroom.elim
          | switch isBound => exact ih hfind

theorem holds_of_agrees {vs ws : List Variable} {origins : List Origin}
    (hrecords : List.Forall₂ (Origin.Records annotations) origins vs)
    (hagrees : List.Forall₂ (Variable.Agrees d) vs ws) :
    List.Forall₂ (fun (o : Origin) w => ∃ v, o.Records annotations v ∧ v.Agrees d w)
      origins ws := by
  induction hrecords generalizing ws with
  | nil =>
      cases hagrees
      exact .nil
  | cons hrecord _ ih =>
      cases hagrees with
      | cons hagree hrest => exact .cons ⟨_, hrecord, hagree⟩ (ih hrest)

/-- The scopes of a machine are laid out as a run has opened them. -/
theorem Stacked.holds (h : Stacked d root layers rs)
    (hrooms : List.Forall₂ (Room.Agrees annotations) rooms layers)
    (hglobals : List.Forall₂ (Origin.Records annotations) globals root.vars) :
    List.Forall₂ (Room.Holds d annotations) (rooms ++ [.block globals]) rs := by
  induction h generalizing rooms with
  | root hr =>
      cases hrooms
      exact .cons (holds_of_agrees hglobals hr.vars) .nil
  | @layer l layers r rs hl _ ih =>
      cases hrooms with
      | @cons room _ rooms _ hroom hrooms =>
          refine .cons ?_ (ih hrooms)
          cases l with
          | scope s =>
              cases room with
              | switch => exact hroom.elim
              | block origins => exact holds_of_agrees hroom hl.vars
          | switch isBound =>
              cases room with
              | block origins => exact hroom.elim
              | switch => exact hl.vars

/-- A global is resolved in a machine to itself, or to a variable of a call. -/
theorem Stacked.resolves_global (h : Stacked d root layers rs)
    (hrooms : List.Forall₂ (Room.Agrees annotations) rooms layers) {o : Origin}
    (hname : name.same Running.switchName = false) (hbinds : BindsTo name root.vars globals v o)
    (ho : o.Records annotations v) :
    ∃ depth w o' u, ResolvesTo name rs (rooms ++ [.block globals]) depth w o' ∧
      o'.Records annotations u ∧ u.Agrees d w ∧ depth ≤ rooms.length ∧
      (depth = rooms.length → o' = o) := by
  induction h generalizing rooms with
  | root hr =>
      cases hrooms
      obtain ⟨w, hw, hagrees⟩ := hbinds.agrees hr.vars
      exact ⟨0, w, o, v, .here hw, ho, hagrees, Nat.le_refl _, fun _ => rfl⟩
  | @layer l layers r rs hl hrest ih =>
      cases hrooms with
      | @cons room _ rooms _ hroom hrooms =>
          obtain ⟨depth, w, o', u, hresolves, hu, hagrees, hle, hsame⟩ := ih hrooms
          have hbehind : r.findVariable? name = none →
              ∃ depth w o' u, ResolvesTo name (r :: rs) (room :: rooms ++ [.block globals]) depth w
                o' ∧ o'.Records annotations u ∧ u.Agrees d w ∧ depth ≤ (room :: rooms).length ∧
                (depth = (room :: rooms).length → o' = o) := fun hnone =>
            ⟨depth + 1, w, o', u, .behind hnone hresolves, hu, hagrees, Nat.succ_le_succ hle,
              fun heq => hsame (Nat.succ.inj heq)⟩
          cases l with
          | switch isBound => exact hbehind (hl.findVariable? hname)
          | scope s =>
              cases room with
              | switch => exact hroom.elim
              | block origins =>
                  cases hs : s.findVariable? name with
                  | none => exact hbehind (findVariable?_eq_none_of_agrees hl.vars hs)
                  | some u =>
                      obtain ⟨p, hp, hrecords⟩ := exists_bindsTo hroom hs
                      obtain ⟨w, hw, hagrees⟩ := hp.agrees hl.vars
                      exact ⟨0, w, p, u, .here hw, hrecords, hagrees, Nat.zero_le _, nofun⟩

/-- What is resolved inside a function in the text is resolved in the same block by a run.  What
is resolved behind its blocks is resolved behind its rooms. -/
structure SameRoom (rooms callerRooms : List Room) (depth depth' : Nat) (o o' : Origin) : Prop where
  inside : depth < (rooms.filter Room.isBlock).length → depth' < rooms.length ∧
    ((rooms.take depth').filter Room.isBlock).length = depth ∧ o' = o
  outside : (rooms.filter Room.isBlock).length ≤ depth → rooms.length ≤ depth' ∧
    depth' ≤ rooms.length + callerRooms.length ∧
    (depth' = rooms.length + callerRooms.length → o' = o)

section SameRoom

variable {depth depth' : Nat} {o o' : Origin}

theorem SameRoom.switch (h : SameRoom rooms callerRooms depth depth' o o') :
    SameRoom (.switch :: rooms) callerRooms depth (depth' + 1) o o' where
  inside hlt := by
    obtain ⟨hlt', hcount, hsame⟩ := h.inside hlt
    exact ⟨Nat.succ_lt_succ hlt', hcount, hsame⟩
  outside hle := by
    obtain ⟨hfrom, hto, hsame⟩ := h.outside hle
    simp only [List.length_cons]
    exact ⟨by omega, by omega, fun heq => hsame (by omega)⟩

theorem SameRoom.block (origins : List Origin) (h : SameRoom rooms callerRooms depth depth' o o') :
    SameRoom (.block origins :: rooms) callerRooms (depth + 1) (depth' + 1) o o' where
  inside hlt := by
    rw [List.filter_cons_of_pos rfl] at hlt
    obtain ⟨hlt', hcount, hsame⟩ := h.inside (Nat.lt_of_succ_lt_succ hlt)
    refine ⟨Nat.succ_lt_succ hlt', ?_, hsame⟩
    rw [List.take_succ_cons, List.filter_cons_of_pos rfl, List.length_cons, hcount]
  outside hle := by
    rw [List.filter_cons_of_pos rfl] at hle
    obtain ⟨hfrom, hto, hsame⟩ := h.outside (Nat.le_of_succ_le_succ hle)
    simp only [List.length_cons]
    exact ⟨by omega, by omega, fun heq => hsame (by omega)⟩

end SameRoom

/-- What the text resolves inside a function, the run resolves to the same origin in the scopes
of the call.  What the text resolves to a global, the run resolves behind them. -/
theorem Stacked.resolves (h : Stacked d root (own ++ callers) rs)
    (hrooms : List.Forall₂ (Room.Agrees annotations) rooms own)
    (hcallers : List.Forall₂ (Room.Agrees annotations) callerRooms callers)
    (hknown : known.vars = root.vars) (hname : name.same Running.switchName = false)
    {depth : Nat} {o : Origin}
    (htext : ResolvesTo name (Layer.view own ++ [known])
      (rooms.filter Room.isBlock ++ [.block globals]) depth v o) (ho : o.Records annotations v) :
    ∃ depth' w o' u, ResolvesTo name rs (rooms ++ callerRooms ++ [.block globals]) depth' w o' ∧
      o'.Records annotations u ∧ u.Agrees d w ∧ SameRoom rooms callerRooms depth depth' o o' := by
  induction hrooms generalizing rs depth with
  | nil =>
      cases htext with
      | here hbinds =>
          rw [hknown] at hbinds
          obtain ⟨depth, w, o', u, hresolves, hu, hagrees, hle, hsame⟩ :=
            Stacked.resolves_global h hcallers hname hbinds ho
          refine ⟨depth, w, o', u, hresolves, hu, hagrees, nofun, fun _ => ⟨Nat.zero_le _, ?_, ?_⟩⟩
          · rwa [List.length_nil, Nat.zero_add]
          · rwa [List.length_nil, Nat.zero_add]
      | behind _ hrest => cases hrest
  | @cons room layer rooms own hroom hrooms ih =>
      cases h with
      | @layer _ _ r rs hl hrest =>
          cases layer with
          | switch isBound =>
              cases room with
              | block origins => exact hroom.elim
              | switch =>
                  obtain ⟨depth', w, o', u, hresolves, hu, hagrees, hsame⟩ := ih hrest htext
                  exact ⟨depth' + 1, w, o', u, .behind (hl.findVariable? hname) hresolves, hu,
                    hagrees, hsame.switch⟩
          | scope s =>
              cases room with
              | switch => exact hroom.elim
              | block origins =>
                  rw [List.filter_cons_of_pos rfl] at htext
                  cases htext with
                  | here hbinds =>
                      obtain ⟨w, hw, hagrees⟩ := hbinds.agrees hl.vars
                      refine ⟨0, w, o, v, .here hw, ho, hagrees, ?_, nofun⟩
                      exact fun _ => ⟨Nat.succ_pos _, rfl, rfl⟩
                  | behind hnone htext =>
                      obtain ⟨depth', w, o', u, hresolves, hu, hagrees, hsame⟩ := ih hrest htext
                      exact ⟨depth' + 1, w, o', u,
                        .behind (findVariable?_eq_none_of_agrees hl.vars hnone) hresolves, hu,
                        hagrees, hsame.block origins⟩

end Resolution

end BlockScript
