import BlockScript.Proofs.Agreement.Sites

/-!
# Agreement is inherited

What holds where a node is met holds where the run of that node meets another one: one case
for each way to get there.
-/

namespace BlockScript
namespace Running

open BlockScript.Computation Typing CheckState

variable {A : Analysis} {d : Discipline} {root : Scope} {m m₁ m₂ m₃ m₄ m₅ : Machine}
  {x : Site} {own callers : List Layer} {settings : Settings} {steps calls : Nat}

section Inversion

/-- A machine at a statement of a function that is checked as the site says. -/
inductive Met (A : Analysis) (d : Discipline) (m : Machine) (x : Site) (node : Node) : Prop
  | intro {root : Scope} {own callers : List Layer} {a : List Annotation} {c' : CheckState}
      {f : Function} :
      Placed A d root m x (.scope x.state.scopes.current :: own) callers →
      check node x.state = (.ok a, c') → RecordedAt A.annotations x.place a →
      node.Every (d.Admits root) → x.state.enclosing = some f → Met A d m x node

/-- A statement inside a function is met as it was checked. -/
theorem Kept.inside {node : Node} (h : Kept A d ⟨.statement, steps, calls, node, m, x⟩)
    (hglobal : ∀ name typeName isMutable value, node ≠ .global name typeName isMutable value)
    (hfunction : ∀ name parameters parameterTypes returnType body,
      node ≠ .function name parameters parameterTypes returnType body)
    (harm : ∀ value body, node ≠ .arm value body) :
    Met A d m x node := by
  cases h with
  | statement hplaced hcheck ha hnode hf => exact ⟨hplaced, hcheck, ha, hnode, hf⟩
  | arm => exact absurd rfl (harm _ _)
  | «global» => exact absurd rfl (hglobal _ _ _ _)
  | function => exact absurd rfl (hfunction _ _ _ _ _)

theorem Placed.initial (h : Placed A d root m x own callers) {node value : Node} {typeName : Name}
    {found : Typed} {finding : Finding} (hdeclared : DeclaredAs x.state.scopes typeName value found)
    (hpresent : value.isAbsent = false)
    (ha : RecordedAt A.annotations x.place (⟨node, finding⟩ :: found.annotations))
    (hvalue : value.Every (d.Admits root)) :
    Kept A d ⟨.expression, steps, calls, value, m, x.forward [node]⟩ := by
  cases hdeclared with
  | inferred _ htype => exact .expression (h.forward [node]) htype ha.tail hvalue
  | bare _ habsent =>
      rw [hpresent] at habsent
      cases habsent
  | given _ _ htype _ => exact .expression (h.forward [node]) htype ha.tail hvalue

/-- The offset of a list that is accessed is met behind the access. -/
theorem Placed.offset (h : Placed A d root m x own callers) {name : Name} {offset : Node}
    {expected : Option StaticType} {found : Typed}
    (htype : typeOf x.state.scopes expected (.access name offset) = .ok found)
    (hpresent : offset.isAbsent = false) (ha : RecordedAt A.annotations x.place found.annotations)
    (hoffset : offset.Every (d.Admits root)) :
    Kept A d ⟨.expression, steps, calls, offset, m, x.forward [.access name offset]⟩ := by
  obtain ⟨others, v, hothers, _, _, rfl⟩ := typeOf_access htype
  rcases typeOf_offset hothers with ⟨habsent, _⟩ | ⟨part, hpart, rfl⟩
  · rw [hpresent] at habsent
    cases habsent
  · exact .expression (h.forward _) hpart ha.tail hoffset

end Inversion

section Calls

variable {name : Name} {before behind : List Node} {values : List Value}

theorem Placed.argument (h : Placed A d root m x own callers) {e : Node}
    {expected : Option StaticType} {found : Typed}
    (htype : typeOf x.state.scopes expected (.call name (before ++ e :: behind)) = .ok found)
    (ha : RecordedAt A.annotations x.place found.annotations)
    (hnode : (Node.call name (before ++ e :: behind)).Every (d.Admits root))
    (hbefore : evaluateAll (evaluate settings steps calls) before m = (.ok values, m₁)) :
    Kept A d ⟨.expression, steps, calls, e, m₁,
      x.forward (.call name (before ++ e :: behind) :: Node.recordedOf before)⟩ := by
  obtain ⟨f, others, _, hf, hothers, rfl⟩ := typeOf_call htype
  obtain ⟨types₁, others₁, part, rest, hlength, hfirst, hpart, rfl⟩ :=
    typeOf_arguments_split hothers (length_of_lookupFunction hf).symm
  obtain ⟨hnodesBefore, hargument, _⟩ := Node.everyOf_append.mp hnode.2
  obtain ⟨hm, _⟩ := (ensures_arguments_agrees ((h.stepsAgree settings steps).evaluation calls)
    hfirst hlength hnodesBefore h.sees h.stacked).of_ok hbefore
  exact .expression ((h.of_stacked hm).forward _) hpart
    (ha.past (nodes_of_typeOfArguments hfirst hlength)).left hargument

theorem Placed.element (h : Placed A d root m x own callers) {e : Node}
    {expected : Option StaticType} {found : Typed}
    (htype : typeOf x.state.scopes expected (.list (before ++ e :: behind)) = .ok found)
    (ha : RecordedAt A.annotations x.place found.annotations)
    (hnode : (Node.list (before ++ e :: behind)).Every (d.Admits root))
    (hbefore : evaluateAll (evaluate settings steps calls) before m = (.ok values, m₁)) :
    Kept A d ⟨.expression, steps, calls, e, m₁,
      x.forward (.list (before ++ e :: behind) :: Node.recordedOf before)⟩ := by
  obtain ⟨inside, hinside, rfl⟩ := typeOf_list htype
  obtain ⟨found₁, part, rest, hfirst, hpart, heq⟩ := typeOf_elements_split hinside
  obtain ⟨hnodesBefore, helement, _⟩ := Node.everyOf_append.mp hnode.2
  have hm := (ensures_elements_agrees ((h.stepsAgree settings steps).evaluation calls) hfirst
    hnodesBefore h.sees h.stacked).of_ok hbefore
  dsimp only at ha
  rw [heq] at ha
  exact .expression ((h.of_stacked hm).forward _) hpart
    (ha.past (nodes_of_typeOfElements hfirst)).left helement

/-- The statements of a function that is called are met with its parameters bound. -/
theorem called_of_aligned (h : Aligned A d root m x own callers) (hsettled : Settled A d root)
    {arity place : Nat} {s : Node} {f g : Function} {parameters : List Name} {entry : CheckState}
    (hfind : root.findFunction? name arity = some f) (hagrees : f.Agrees g)
    (hvalues : List.Forall₂ (fun (type : StaticType) value => ∃ source,
      StaticType.accepts (some type) source = true ∧ d.Fits source value) f.parameterTypes values)
    (haction : g.action = .declared parameters (before ++ s :: behind))
    (hbind : bindParameters parameters values m.enter = (.ok (), m₁))
    (hbefore : executeAll (execute settings steps calls) before m₁ = (.ok .finished, m₂))
    (henters : EntersBody A.program A.opening g place entry) :
    Kept A d ⟨.statement, steps, calls, s, m₂, (x.call place parameters entry).along before⟩ := by
  rcases hsettled.entered _ _ f hfind with rfl | hentered
  · rw [hagrees.action] at haction
    cases haction
  · have hbody := hentered g place entry parameters _ hagrees haction henters
    obtain ⟨a, c, hcheck, ha⟩ := hbody.recorded
    have hentry : (bindParameters parameters values).Ensures m.enter
        (fun _ m' => Stacked d root (.scope entry.scopes.current :: (own ++ callers))
          m'.scopes.toList) (d.Accepts settings) :=
      ensures_entry hbody.isChecked (fits_arguments hbody.isChecked hvalues) h.stacked
    have hplaced : Placed A d root m₁ (x.call place parameters entry)
        [.scope entry.scopes.current] (own ++ callers) :=
      { sees := sees_entry hbody.isChecked
        stacked := hentry.of_ok hbind
        rooms := .cons hbody.parameters .nil
        callers := List.rel_append h.rooms h.callers
        globals := h.globals
        settled := hsettled
        functions := hbody.functions }
    exact hplaced.row hcheck ha hbody.isChecked.admits hbody.isChecked.enclosing hbefore

/-- The function that a call runs is the one that its check has found. -/
theorem Placed.function (h : Placed A d root m x own callers) {arguments : List Node}
    {expected : Option StaticType} {found : Typed}
    (htype : typeOf x.state.scopes expected (.call name arguments) = .ok found)
    (hnode : (Node.call name arguments).Every (d.Admits root))
    (hvalues : evaluateAll (evaluate settings steps calls) arguments m = (.ok values, m₁)) :
    Placed A d root m₁ x own callers ∧ ∃ f others,
      x.state.scopes.lookupFunction name arguments.length = .ok f ∧
      found.annotations = ⟨.call name arguments, .call f⟩ :: others ∧
      List.Forall₂ (fun (type : StaticType) value => ∃ source,
        StaticType.accepts (some type) source = true ∧ d.Fits source value) f.parameterTypes
        values ∧
      ∃ g, lookupFunction name values.length m₁ = (.ok g, m₁) ∧ f.Agrees g := by
  obtain ⟨f, others, hname, hf, hothers, rfl⟩ := typeOf_call htype
  have hlength := length_of_lookupFunction hf
  obtain ⟨hm₁, hfits⟩ := (ensures_arguments_agrees
    ((h.stepsAgree settings steps).evaluation calls) hothers hlength.symm hnode.2 h.sees
    h.stacked).of_ok hvalues
  refine ⟨h.of_stacked hm₁, f, others, hf, rfl, hfits, ?_⟩
  rw [← hlength, hfits.length_eq] at hf
  obtain ⟨g, hg, hagrees⟩ := h.sees.lookupFunction hm₁ hf
  exact ⟨g, lookupFunction_of_chain hname hg, hagrees⟩

theorem Placed.body (h : Placed A d root m x own callers) {arguments : List Node} {s : Node}
    {place : Nat} {g : Function} {parameters : List Name} {entry : CheckState}
    {expected : Option StaticType} {found : Typed}
    (htype : typeOf x.state.scopes expected (.call name arguments) = .ok found)
    (hnode : (Node.call name arguments).Every (d.Admits root))
    (hvalues : evaluateAll (evaluate settings steps (calls + 1)) arguments m = (.ok values, m₁))
    (hg : lookupFunction name values.length m₁ = (.ok g, m₁))
    (haction : g.action = .declared parameters (before ++ s :: behind))
    (hnote : note settings 1 ("call " ++ ScopeFault.signature name.text values.length) m₁ =
      (.ok (), m₂))
    (hbind : bindParameters parameters values m₂.enter = (.ok (), m₃))
    (hbefore : executeAll (execute settings steps calls) before m₃ = (.ok .finished, m₄))
    (henters : EntersBody A.program A.opening g place entry) :
    Kept A d ⟨.statement, steps, calls, s, m₄, (x.call place parameters entry).along before⟩ := by
  obtain ⟨hplaced, f, _, hf, _, hfits, g', hg', hagrees⟩ := h.function htype hnode hvalues
  rw [hg] at hg'
  cases hg'
  exact called_of_aligned (hplaced.noted hnote).toAligned h.settled
    (h.sees.findFunction h.stacked hf) hagrees hfits haction hbind hbefore henters

end Calls

section Switches

variable {f : Function} {a : List Annotation} {c c' : CheckState} {before behind : List Node}
  {arm : Node} {value : Value} {type : Option StaticType}

theorem Placed.compared (h : Placed A d root m x own callers) {node : Node} {isLast : Bool}
    (harm : ArmValue x.state.scopes type isLast node a) (hvalue : d.Fits type value)
    (hnode : node.Every (d.Admits root)) {isChosen : Bool}
    (hmeets : meets settings (evaluate settings steps calls) value node m = (.ok isChosen, m₁)) :
    Placed A d root m₁ x own callers := by
  have hagrees : (meets settings (evaluate settings steps calls) value node).Ensures m
      (fun chosen m' => Stacked d root (own ++ callers) m'.scopes.toList ∧
        (isLast = true → chosen = true)) (d.Accepts settings) :=
    ensures_meets_agrees ((h.stepsAgree settings steps).evaluation calls) harm hvalue hnode
      h.sees h.stacked
  exact h.of_stacked (hagrees.of_ok hmeets).1

/-- A case was checked where a switch is met, and its records stand at a place. -/
structure ArmAt (A : Analysis) (c : CheckState) (type : Option StaticType) (isLast : Bool)
    (place : Nat) (value : Node) (body : List Node) : Prop where
  isValue : ∃ found, ArmValue c.scopes type isLast value found ∧
    RecordedAt A.annotations place found
  isBody : ∃ inBody c', Typing.inScope (checkAll body) c = (.ok inBody, c') ∧
    RecordedAt A.annotations (place + value.recorded.length) inBody

/-- Behind the cases that were passed the next one is met as it was checked. -/
theorem Placed.passed (h : Placed A d root m x own callers) {position place : Nat}
    (hsame : Same x.state c) (hvalue : d.Fits type value)
    (hcheck : checkArms type position (before ++ arm :: behind) c = (.ok a, c'))
    (ha : RecordedAt A.annotations place a)
    (harms : Node.EveryOf (d.Admits root) (before ++ arm :: behind))
    (hpassed : Passed settings (evaluate settings steps calls) value before m m₁) :
    Placed A d root m₁ x own callers ∧ ∃ node body, arm = .arm node body ∧
      ArmAt A x.state type behind.isEmpty (place + (Node.recordedOf before).length) node body := by
  induction hpassed generalizing position place c a with
  | nil =>
      obtain ⟨node, body, found, inBody, others, c₁, rfl, harm, hbody, _, rfl⟩ :=
        checkArms_cons hcheck
      rw [hsame.scopes] at harm
      rw [List.append_assoc] at ha
      obtain ⟨c₂, hbody', _⟩ := (blind_block _).of_ok hsame hbody
      exact ⟨h, node, body, rfl, ⟨found, harm, ha.left⟩,
        inBody, c₂, hbody', (ha.right harm.nodes).left⟩
  | @cons first node before m m₁ m₂ hpart hmeets _ ih =>
      obtain ⟨node', body, found, inBody, others, c₁, rfl, harm, hbody, hothers, rfl⟩ :=
        checkArms_cons hcheck
      cases hpart
      obtain ⟨_, hinner, _⟩ := inScope_eq_ok hbody
      have hfirst : (found ++ inBody).map Annotation.node = (Node.arm node body).recorded := by
        rw [List.map_append, harm.nodes, nodes_of_checkAll hinner, Node.recorded_arm]
      rw [hsame.scopes] at harm
      have hcompared := h.compared harm hvalue harms.1.2.1 hmeets
      have hnext := hsame.trans (inScope_same (Discipline.innerOf_of_admits harms.1.2.2) hbody)
      have hrest := ih hcompared hnext hothers (ha.right hfirst) harms.2
      rwa [Nat.add_assoc, ← List.length_append, ← Node.recordedOf_cons] at hrest

theorem Placed.enterSwitch (h : Placed A d root m x own callers) :
    Placed A d root m.enter x.enterSwitch (.switch false :: own) callers where
  sees := sees_switch false h.sees
  stacked := h.stacked.enterSwitch
  rooms := .cons trivial h.rooms
  callers := h.callers
  globals := h.globals
  settled := h.settled
  functions := h.functions

/-- In the scope of a switch its cases are met. -/
theorem Placed.switch (h : Placed A d root m x own callers) {test : Node} {found : Typed}
    (hfound : typeOf x.state.scopes none test = .ok found) (htest : test.Every (d.Admits root))
    (hvalue : evaluate settings steps calls test m.enter = (.ok value, m₁))
    (hbind : bindVariable switchName true value m₁ = (.ok (), m₂)) :
    Placed A d root m₂ x.enterSwitch (.switch true :: own) callers ∧ d.Fits found.type value := by
  obtain ⟨hplaced, htype⟩ := h.enterSwitch.evaluated hfound htest hvalue
  have hswitch : (bindVariable switchName true value).Ensures m₁
      (fun _ m' => Stacked d root (.switch true :: (own ++ callers)) m'.scopes.toList)
      (d.Accepts settings) := ensures_bindSwitch_agrees value hplaced.stacked
  refine ⟨{ hplaced with
    sees := sees_switch true h.sees
    stacked := hswitch.of_ok hbind
    rooms := .cons trivial h.rooms }, htype⟩

end Switches

section Statements

variable {before behind : List Node} {test s : Node}

/-- The statements of a branch that is taken are met, here those of the first one. -/
theorem Met.thenBranch {elseBody : List Node}
    (h : Met A d m x (.conditional test (before ++ s :: behind) elseBody))
    (htest : evaluate settings steps calls test m = (.ok (.boolean true), m₁))
    (hnote : note settings 3 ("if condition -> " ++ truthText true) m₁ = (.ok (), m₂))
    (hbefore : executeAll (execute settings steps calls) before m₂.enter = (.ok .finished, m₃)) :
    Kept A d ⟨.statement, steps, calls, s, m₃, (x.forward test.recorded).enter.along before⟩ := by
  obtain ⟨h, hcheck, ha, hnode, hf⟩ := h
  obtain ⟨found, _, inThen, _, hfound, _, hthen, _, rfl⟩ := conditional_eq_ok hcheck
  obtain ⟨hplaced, _⟩ := h.evaluated hfound hnode.2.1 htest
  exact ((hplaced.noted hnote).forward _).block hthen (ha.left.right (nodes_of_typeOf hfound))
    hnode.2.2.1 hf hbefore

/-- The second branch was checked behind the first one, in the same scopes. -/
theorem Met.elseBranch {thenBody : List Node}
    (h : Met A d m x (.conditional test thenBody (before ++ s :: behind)))
    (htest : evaluate settings steps calls test m = (.ok (.boolean false), m₁))
    (hnote : note settings 3 ("if condition -> " ++ truthText false) m₁ = (.ok (), m₂))
    (hbefore : executeAll (execute settings steps calls) before m₂.enter = (.ok .finished, m₃)) :
    Kept A d ⟨.statement, steps, calls, s, m₃,
      (x.forward (test.recorded ++ Node.recordedOf thenBody)).enter.along before⟩ := by
  obtain ⟨h, hcheck, ha, ⟨_, htestNode, hthenNodes, helseNodes⟩, hf⟩ := h
  obtain ⟨found, c₁, inThen, inElse, hfound, _, hthen, helse, rfl⟩ := conditional_eq_ok hcheck
  obtain ⟨hplaced, _⟩ := h.evaluated hfound htestNode htest
  have hsame := inScope_same (Discipline.innerOf_of_admits hthenNodes) hthen
  obtain ⟨c₂, helse', _⟩ := (blind_block _).of_ok hsame helse
  obtain ⟨_, hinner, _⟩ := inScope_eq_ok hthen
  have hnodes : (found.annotations ++ inThen).map Annotation.node = _ :=
    (List.map_append).trans
      (congrArg₂ List.append (nodes_of_typeOf hfound) (nodes_of_checkAll hinner))
  exact ((hplaced.noted hnote).forward _).block helse' (ha.right hnodes) helseNodes hf hbefore

theorem Met.iteration (h : Met A d m x (.loop test (before ++ s :: behind)))
    (htest : evaluate settings steps calls test m = (.ok (.boolean true), m₁))
    (hbefore : executeAll (execute settings steps calls) before m₁.enter = (.ok .finished, m₂)) :
    Kept A d ⟨.statement, steps, calls, s, m₂, (x.forward test.recorded).enter.along before⟩ := by
  obtain ⟨h, hcheck, ha, hnode, hf⟩ := h
  obtain ⟨found, _, hfound, _, hbody, rfl⟩ := loop_eq_ok hcheck
  obtain ⟨hplaced, _⟩ := h.evaluated hfound hnode.2.1 htest
  exact (hplaced.forward _).block hbody (ha.right (nodes_of_typeOf hfound)) hnode.2.2 hf hbefore

/-- Behind an iteration the loop is met again. -/
theorem Met.again {body : List Node} (h : Met A d m x (.loop test body))
    (htest : evaluate settings steps calls test m = (.ok (.boolean true), m₁))
    (hbody : inScope (executeAll (execute settings steps calls) body) m₁ = (.ok .finished, m₂)) :
    Kept A d ⟨.statement, steps, calls, .loop test body, m₂, x⟩ := by
  obtain ⟨h, hcheck, ha, hnode, hf⟩ := h
  obtain ⟨found, _, hfound, _, hinner, rfl⟩ := loop_eq_ok hcheck
  obtain ⟨hplaced, _⟩ := h.evaluated hfound hnode.2.1 htest
  have hbehind := (ensures_body_agrees ((h.stepsAgree settings _).execution _) hinner
    hnode.2.2 hf hplaced.sees hplaced.stacked).of_ok hbody
  exact .statement (hplaced.of_stacked hbehind.stacked) hcheck ha hnode hf

/-- The value of a case is met in the scope of the switch, behind the cases that were passed. -/
theorem Met.compared {value : Value} {e arm : Node}
    (h : Met A d m x (.switch test (before ++ arm :: behind)))
    (hvalue : evaluate settings steps calls test m.enter = (.ok value, m₁))
    (hbind : bindVariable switchName true value m₁ = (.ok (), m₂))
    (hpassed : Passed settings (evaluate settings steps calls) value before m₂ m₃)
    (hpart : arm.valuePart = .tree e) (hpresent : e.isAbsent = false) :
    Kept A d ⟨.expression, steps, calls, e, m₃,
      x.enterSwitch.forward (test.recorded ++ Node.recordedOf before)⟩ := by
  obtain ⟨h, hcheck, ha, hnode, _⟩ := h
  obtain ⟨found, inArms, hfound, harms, rfl⟩ := switch_eq_ok hcheck
  obtain ⟨hplaced, htype⟩ := h.switch hfound hnode.2.1 hvalue hbind
  obtain ⟨hplaced', node, body, rfl, ⟨others, harm, hothers⟩, _⟩ :=
    hplaced.passed (Same.refl _) htype harms (ha.right (nodes_of_typeOf hfound)) hnode.2.2 hpassed
  obtain ⟨_, harmNode, _⟩ := Node.everyOf_append.mp hnode.2.2
  cases hpart
  cases harm with
  | last => cases hpresent
  | literal _ hliteral _ =>
      refine .expression (hplaced'.forward _) hliteral ?_ harmNode.2.1
      change RecordedAt _ (_ + _) _
      rwa [List.length_append, ← Nat.add_assoc]

/-- The case that is chosen is met behind its value. -/
theorem Met.chosen {value : Value} {e arm : Node}
    (h : Met A d m x (.switch test (before ++ arm :: behind)))
    (hvalue : evaluate settings steps calls test m.enter = (.ok value, m₁))
    (hbind : bindVariable switchName true value m₁ = (.ok (), m₂))
    (hpassed : Passed settings (evaluate settings steps calls) value before m₂ m₃)
    (hpart : arm.valuePart = .tree e)
    (hmeets : meets settings (evaluate settings steps calls) value e m₃ = (.ok true, m₄))
    (hnote : note settings 3 ("switch selected case " ++ Text.natText before.length) m₄ =
      (.ok (), m₅)) :
    Kept A d ⟨.statement, steps, calls, arm, m₅,
      x.enterSwitch.forward (test.recorded ++ Node.recordedOf before)⟩ := by
  obtain ⟨h, hcheck, ha, hnode, hf⟩ := h
  obtain ⟨found, inArms, hfound, harms, rfl⟩ := switch_eq_ok hcheck
  obtain ⟨hplaced, htype⟩ := h.switch hfound hnode.2.1 hvalue hbind
  obtain ⟨hplaced', node, body, rfl, ⟨_, harm, _⟩, inBody, c₁, hbody, hinBody⟩ :=
    hplaced.passed (Same.refl _) htype harms (ha.right (nodes_of_typeOf hfound)) hnode.2.2 hpassed
  obtain ⟨_, harmNode, _⟩ := Node.everyOf_append.mp hnode.2.2
  cases hpart
  have hcompared := hplaced'.compared harm htype harmNode.2.1 hmeets
  refine .arm ((hcompared.noted hnote).forward _) hbody ?_ harmNode.2.2 hf
  change RecordedAt _ (_ + _ + _) _
  rwa [List.length_append, ← Nat.add_assoc]

end Statements

section Points

/-- A point that is met as it was checked passes this on to the points that its run meets. -/
theorem LocatedPart.kept {p q : Point Site} (hpart : LocatedPart settings A.program A.opening p q)
    (hp : Kept A d p) : Kept A d q := by
  cases hpart with
  | group =>
      cases hp with
      | expression h htype ha hnode =>
          obtain ⟨part, hinner, rfl⟩ := typeOf_group htype
          exact .expression (h.forward _) hinner ha.tail hnode.2
  | left =>
      cases hp with
      | expression h htype ha hnode =>
          obtain ⟨l, r, type, hl, _, _, rfl⟩ := typeOf_binary htype
          exact .expression (h.forward _) hl ha.tail.left hnode.2.1
  | right hleft _ _ =>
      cases hp with
      | expression h htype ha hnode =>
          obtain ⟨l, r, type, hl, hr, _, rfl⟩ := typeOf_binary htype
          obtain ⟨hplaced, _⟩ := h.evaluated hl hnode.2.1 hleft
          exact .expression (hplaced.forward _) hr (ha.past (nodes_of_typeOf hl)) hnode.2.2
  | offset hpresent _ _ =>
      cases hp with
      | expression h htype ha hnode => exact h.offset htype hpresent ha hnode.2
  | argument hbefore =>
      cases hp with
      | expression h htype ha hnode => exact h.argument htype ha hnode hbefore
  | element hbefore =>
      cases hp with
      | expression h htype ha hnode => exact h.element htype ha hnode hbefore
  | body hvalues hf haction hnote hbind hbefore henters =>
      cases hp with
      | expression h htype _ hnode =>
          exact h.body htype hnode hvalues hf haction hnote hbind hbefore henters
  | initial hpresent =>
      cases hp with
      | statement _ _ _ hnode _ => exact hnode.1.inner.elim
      | «global» h _ hcheck ha hadmits =>
          obtain ⟨found, hdeclared, _, _, rfl⟩ := global_eq_ok hcheck
          exact h.initial hdeclared hpresent ha hadmits.initial
  | declared hpresent =>
      obtain ⟨h, hcheck, ha, hnode, _⟩ := hp.inside nofun nofun nofun
      obtain ⟨found, hdeclared, _, _, rfl⟩ := declare_eq_ok hcheck
      exact h.initial hdeclared hpresent ha hnode.2
  | evaluated =>
      obtain ⟨h, hcheck, ha, hnode, _⟩ := hp.inside nofun nofun nofun
      obtain ⟨_, found, hfound, rfl⟩ := evaluation_eq_ok hcheck
      exact .expression h hfound ha hnode.2
  | returned hpresent =>
      obtain ⟨h, hcheck, ha, hnode, _⟩ := hp.inside nofun nofun nofun
      obtain ⟨_, _, _, ⟨habsent, _⟩ | ⟨_, found, hfound, _, rfl⟩⟩ := returning_eq_ok hcheck
      · rw [hpresent] at habsent
        cases habsent
      · exact .expression h hfound ha hnode.2
  | assigned =>
      obtain ⟨h, hcheck, ha, hnode, _⟩ := hp.inside nofun nofun nofun
      obtain ⟨_, _, _, _, place, found, rfl, hplace, _, _, hfound, _, rfl⟩ :=
        assignment_eq_ok hcheck
      exact .expression (h.forward _) hfound (ha.right (nodes_of_typeOf hplace)) hnode.2.2
  | targetOffset hvalue hpresent _ _ =>
      obtain ⟨h, hcheck, ha, hnode, _⟩ := hp.inside nofun nofun nofun
      obtain ⟨_, _, _, _, place, found, heq, hplace, _, _, hfound, _, rfl⟩ :=
        assignment_eq_ok hcheck
      cases heq
      obtain ⟨hplaced, _⟩ := h.evaluated hfound hnode.2.2 hvalue
      exact hplaced.offset hplace hpresent ha.left hnode.2.1.2
  | condition =>
      obtain ⟨h, hcheck, ha, hnode, _⟩ := hp.inside nofun nofun nofun
      obtain ⟨found, _, _, _, hfound, _, _, _, rfl⟩ := conditional_eq_ok hcheck
      exact .expression h hfound ha.left.left hnode.2.1
  | thenBranch htest hnote hbefore =>
      exact (hp.inside nofun nofun nofun).thenBranch htest hnote hbefore
  | elseBranch htest hnote hbefore =>
      exact (hp.inside nofun nofun nofun).elseBranch htest hnote hbefore
  | repeated =>
      obtain ⟨h, hcheck, ha, hnode, _⟩ := hp.inside nofun nofun nofun
      obtain ⟨found, _, hfound, _, _, rfl⟩ := loop_eq_ok hcheck
      exact .expression h hfound ha.left hnode.2.1
  | iteration htest hbefore => exact (hp.inside nofun nofun nofun).iteration htest hbefore
  | again htest hbody => exact (hp.inside nofun nofun nofun).again htest hbody
  | subject =>
      obtain ⟨h, hcheck, ha, hnode, _⟩ := hp.inside nofun nofun nofun
      obtain ⟨found, _, hfound, _, rfl⟩ := switch_eq_ok hcheck
      exact .expression h.enterSwitch hfound ha.left hnode.2.1
  | compared hvalue hbind hpassed hpart hpresent =>
      exact (hp.inside nofun nofun nofun).compared hvalue hbind hpassed hpart hpresent
  | chosen hvalue hbind hpassed hpart hmeets hnote =>
      exact (hp.inside nofun nofun nofun).chosen hvalue hbind hpassed hpart hmeets hnote
  | armBody hbefore =>
      cases hp with
      | statement h hcheck ha hnode hf =>
          obtain ⟨others, inBody, hnodes, hbody, rfl⟩ := arm_split hcheck
          exact (h.forward _).block hbody (ha.right hnodes) hnode.2.2 hf hbefore
      | arm h hbody ha hnodes hf => exact (h.forward _).block hbody ha hnodes hf hbefore

end Points

end Running
end BlockScript
