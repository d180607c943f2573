import BlockScript.Proofs.Typing.Declarations
import BlockScript.Proofs.Typing.Inference

/-!
# The checker decides the typing rules

A statement is accepted exactly where it has a derivation, with the same records and the same
scopes behind it.  From there the statement goes up to bodies, functions and programs.
-/

namespace BlockScript
namespace Typing

open BlockScript.Computation BlockScript.Typing.Derivation

section Steps

variable {α β : Type} {c c₁ : CheckState}

theorem bind_of_ok {m : Checking α} {next : α → Checking β} {x : α} (h : m c = (.ok x, c₁)) :
    (m >>= next) c = next x c₁ := by
  rw [bind_apply, h]

theorem state_bind_apply {next : CheckState → Checking β} : (state >>= next) c = next c c := rfl

theorem lift_bind_of_ok {r : Except CheckFailure α} {next : α → Checking β} {x : α}
    (h : r = .ok x) : (lift r >>= next) c = next x c :=
  bind_of_ok (by rw [h]; rfl)

theorem typeHere_bind_of_ok {expected : Option StaticType} {node : Node} {found : Typed}
    {next : Typed → Checking β} (h : typeOf c.scopes expected node = .ok found) :
    (typeHere expected node >>= next) c = next found c :=
  bind_of_ok (by
    change (lift (typeOf c.scopes expected node) : Checking Typed) c = (.ok found, c)
    rw [h]
    rfl)

theorem inScope_of_ok {m : Checking α} {x : α} (h : m c.enter = (.ok x, c₁)) :
    inScope m c = (.ok x, c₁.leave) := by
  change (m.afterwards CheckState.leave) c.enter = (.ok x, c₁.leave)
  rw [afterwards_apply, h]

end Steps

section Declarations

variable {c : CheckState} {name typeName : Name} {value : Node}

theorem isAbsent_iff {node : Node} : node.isAbsent = true ↔ node = .absent := by
  cases node <;> simp [Node.isAbsent]

theorem Derivation.Expression.ne_absent {k : Chain} {expected : Option StaticType} {e : Node}
    {t : StaticType} {as : List Annotation} (h : Expression k expected e t as) :
    e.isAbsent = false := by
  cases h <;> rfl

theorem declaredType_iff (hc : c.scopes.IsOrdinary) (htypeName : Node.IsTypeName typeName)
    (hinner : value.Every Node.IsInner) (hformed : value.Every Node.IsFormed) {found : Typed}
    {c' : CheckState} :
    declaredType name typeName value c = (.ok found, c') ↔
      c' = c ∧ ∃ t as, found = ⟨some t, as⟩ ∧ Declared c.scopes typeName value t as := by
  unfold declaredType
  rcases htypeName with rfl | htext
  · have hmissing : Name.missing.isMissing = true := rfl
    rw [if_pos hmissing]
    constructor
    · intro h
      split at h
      · cases h
      · obtain ⟨hfound, rfl⟩ : typeOf c.scopes none value = .ok found ∧ c' = c := lift_eq_ok h
        obtain ⟨t, as, rfl, htyped⟩ := (typeOf_iff hc hinner hformed).mp hfound
        exact ⟨rfl, t, as, rfl, .inferred htyped⟩
    · rintro ⟨rfl, t, as, rfl, h⟩
      cases h with
      | inferred htyped =>
          rw [htyped.ne_absent]
          have hfound := (typeOf_iff hc hinner hformed).mpr ⟨t, as, rfl, htyped⟩
          change (lift (typeOf c'.scopes none value) : Checking Typed) c' = _
          rw [hfound]
          rfl
  · have hnamed : typeName.isMissing = false := by
      obtain ⟨s, rfl⟩ := htext
      rfl
    rw [hnamed, if_neg Bool.false_ne_true]
    constructor
    · intro h
      obtain ⟨t, ht, hrest⟩ := lift_bind_eq_ok h
      obtain rfl := (typeNamed_iff htext).mp ht
      split at hrest
      · rename_i habsent
        cases hrest
        obtain rfl := isAbsent_iff.mp habsent
        exact ⟨rfl, t, [], rfl, .bare⟩
      · obtain ⟨part, hpart, hlast⟩ := typeHere_bind_eq_ok hrest
        obtain ⟨s, as, rfl, htyped⟩ := (typeOf_iff hc hinner hformed).mp hpart
        obtain ⟨u, hrequire, hlast⟩ := lift_bind_eq_ok hlast
        cases hlast
        exact ⟨rfl, t, as, rfl, .given htyped (requireAssignable_iff.mp hrequire)⟩
    · rintro ⟨rfl, t, as, rfl, h⟩
      cases h with
      | inferred => cases hnamed
      | bare =>
          rw [lift_bind_of_ok ((typeNamed_iff htext).mpr rfl)]
          rfl
      | given htyped hassignable =>
          rw [lift_bind_of_ok ((typeNamed_iff htext).mpr rfl), htyped.ne_absent,
            if_neg Bool.false_ne_true,
            typeHere_bind_of_ok ((typeOf_iff hc hinner hformed).mpr ⟨_, _, rfl, htyped⟩),
            lift_bind_of_ok (x := ()) (requireAssignable_iff.mpr hassignable)]
          rfl

/-- The declaration of a variable is accepted exactly where its type has a derivation and its
name is new. -/
theorem declare_iff (hc : c.scopes.IsOrdinary) (hname : Node.IsText name)
    (htypeName : Node.IsTypeName typeName) (hinner : value.Every Node.IsInner)
    (hformed : value.Every Node.IsFormed) {node : Node} {verb : String} {isMutable : Bool}
    {k : Chain} {a : List Annotation} :
    (∃ c', declare node verb name typeName isMutable value c = (.ok a, c') ∧ c'.scopes = k) ↔
      ∃ t as, Declared c.scopes typeName value t as ∧
        Declares c.scopes ⟨name, name, some t, isMutable, .nil⟩ k ∧
        a = ⟨node, .declaration ⟨name, name, some t, isMutable, .nil⟩⟩ :: as := by
  constructor
  · rintro ⟨c', h, rfl⟩
    unfold declare at h
    obtain ⟨found, c₁, hfound, h⟩ := bind_eq_ok.mp h
    obtain ⟨rfl, t, as, rfl, hdeclared⟩ :=
      (declaredType_iff hc htypeName hinner hformed).mp hfound
    obtain ⟨u, c₂, hbind, h⟩ := bind_eq_ok.mp h
    obtain ⟨k, hdeclares, rfl⟩ := (bindVariable_iff hname.isBindable).mp hbind
    cases h
    exact ⟨t, as, hdeclared, hdeclares, rfl⟩
  · rintro ⟨t, as, hdeclared, hdeclares, rfl⟩
    have hfound : declaredType name typeName value c = (.ok ⟨some t, as⟩, c) :=
      (declaredType_iff hc htypeName hinner hformed).mpr ⟨rfl, t, as, rfl, hdeclared⟩
    have hbind := (bindVariable_iff (u := ()) hname.isBindable).mpr ⟨k, hdeclares, rfl⟩
    have hdone : declare node verb name typeName isMutable value c =
        (.ok (⟨node, .declaration ⟨name, name, some t, isMutable, .nil⟩⟩ :: as),
          { c with
            scopes := k
            trace := c.trace.note 2 (verb ++ " " ++ name.text ++ ": " ++ t.name) }) := by
      rw [declare, bind_of_ok hfound, bind_of_ok hbind]
      rfl
    exact ⟨_, hdone, rfl⟩

end Declarations

section Parts

variable {c : CheckState}

theorem condition_bind_of_ok {α : Type} {statement : String} {node : Node}
    {as : List Annotation} {next : List Annotation → Checking α}
    (h : typeOf c.scopes none node = .ok ⟨some .boolean, as⟩) :
    (condition statement node >>= next) c = next as c :=
  bind_of_ok (by rw [condition, typeHere_bind_of_ok h]; rfl)

theorem VariableOf.unique (hc : c.scopes.IsOrdinary) {name : Name} {v w : Variable}
    (hv : VariableOf c.scopes name v) (hw : VariableOf c.scopes name w) : v = w := by
  have hv := (lookupVariable_iff hc).mpr hv
  have hw := (lookupVariable_iff hc).mpr hw
  rw [hv] at hw
  exact Except.ok.inj hw

/-- The first record of an access is that of its variable. -/
theorem Derivation.Expression.of_access {k : Chain} {name : Name} {offset : Node}
    {t : StaticType} {as : List Annotation} (h : Expression k none (.access name offset) t as) :
    ∃ v bs, VariableOf k name v ∧ v.type = some t ∧
      as = ⟨.access name offset, .access v⟩ :: bs := by
  cases h with
  | «variable» hv ht => exact ⟨_, _, hv, ht, rfl⟩
  | item _ hv ht => exact ⟨_, _, hv, ht, rfl⟩

theorem assignment_iff (hc : c.scopes.IsOrdinary) {target value : Node}
    (htarget : target.Every Node.IsInner) (htarget' : target.Every Node.IsFormed)
    (hvalue : value.Every Node.IsInner) (hvalue' : value.Every Node.IsFormed)
    {result : StaticType} {k : Chain} {a : List Annotation} :
    (∃ c', assignment target value c = (.ok a, c') ∧ c'.scopes = k) ↔
      Statement result c.scopes (.assignment target value) k a := by
  constructor
  · rintro ⟨c', h, rfl⟩
    obtain ⟨rfl, name, offset, v, place, found, rfl, hplace, hlookup, hmutable, hfound,
      haccepts, rfl⟩ := assignment_eq_ok h
    obtain ⟨t, as, rfl, htyped⟩ := (typeOf_iff hc htarget htarget').mp hplace
    obtain ⟨w, bs, hw, ht, -⟩ := htyped.of_access
    have hv := (lookupVariable_iff hc).mp hlookup
    obtain rfl := VariableOf.unique hc hv hw
    rw [ht] at hfound haccepts
    obtain ⟨s, ds, rfl, htyped'⟩ := (typeOf_iff hc hvalue hvalue').mp hfound
    exact .assignment htyped hv hmutable htyped' (accepts_iff.mp haccepts)
  · intro h
    cases h with
    | assignment htyped hv hmutable htyped' hassignable =>
        have hplace := (typeOf_iff hc htarget htarget').mpr ⟨_, _, rfl, htyped⟩
        obtain ⟨w, bs, hw, ht, rfl⟩ := htyped.of_access
        obtain rfl := VariableOf.unique hc hv hw
        have hfound := (typeOf_iff hc hvalue hvalue').mpr ⟨_, _, rfl, htyped'⟩
        rw [← ht] at hfound hplace
        refine ⟨c, ?_, rfl⟩
        rw [assignment, typeHere_bind_of_ok hplace]
        dsimp only [List.head?_cons, Option.bind_some, Finding.boundVariable?]
        rw [if_pos hmutable, typeHere_bind_of_ok hfound, ht,
          lift_bind_of_ok (x := ()) (requireAssignable_iff.mpr hassignable)]
        rfl

theorem returning_iff (hc : c.scopes.IsOrdinary) {f : Function} (hf : c.enclosing = some f)
    {value : Node} (hvalue : value.Every Node.IsInner) (hvalue' : value.Every Node.IsFormed)
    {k : Chain} {a : List Annotation} :
    (∃ c', returning value c = (.ok a, c') ∧ c'.scopes = k) ↔
      Statement f.returnType c.scopes (.returning value) k a := by
  have hrequire : ∀ {type}, type = some f.returnType → requireReturn f type = .ok () := by
    rintro _ rfl
    rw [requireReturn, if_pos rfl]
  constructor
  · rintro ⟨c', h, rfl⟩
    obtain ⟨rfl, g, hg, hcases⟩ := returning_eq_ok h
    obtain rfl : f = g := Option.some.inj (hf.symm.trans hg)
    rcases hcases with ⟨habsent, htype, rfl⟩ | ⟨_, found, hfound, htype, rfl⟩
    · obtain rfl := isAbsent_iff.mp habsent
      exact .plainReturn htype
    · obtain ⟨t, as, rfl, htyped⟩ := (typeOf_iff hc hvalue hvalue').mp hfound
      cases htype
      exact .returning htyped
  · intro h
    have hstart : returning value c = (if value.isAbsent then do
          lift (requireReturn f (some .nil))
          return []
        else do
          let found ← typeHere none value
          lift (requireReturn f found.type)
          return found.annotations : Checking (List Annotation)) c := by
      rw [returning, state_bind_apply, hf]
    cases h with
    | plainReturn htype =>
        refine ⟨c, ?_, rfl⟩
        rw [hstart, if_pos (isAbsent_iff.mpr rfl),
          lift_bind_of_ok (x := ()) (hrequire (by rw [htype]))]
        rfl
    | returning htyped =>
        refine ⟨c, ?_, rfl⟩
        rw [hstart, htyped.ne_absent, if_neg Bool.false_ne_true, typeHere_bind_of_ok
          ((typeOf_iff hc hvalue hvalue').mpr ⟨_, _, rfl, htyped⟩),
          lift_bind_of_ok (x := ()) (hrequire rfl)]
        rfl

theorem caseValue_of_literal {s : Scalar} {t : StaticType} {as : List Annotation}
    {position : Nat} {body : List Node}
    (h : typeOf c.scopes none (.literal s) = .ok ⟨some t, as⟩) :
    caseValue (some t) position (.arm (.literal s) body) c = (.ok as, c) := by
  rw [caseValue]
  dsimp only [Node.valuePart]
  rw [typeHere_bind_of_ok h]
  dsimp only
  rw [if_pos rfl]
  rfl

end Parts

section Statements

variable {f : Function}

/-- A body has a derivation where it is accepted in a scope of its own. -/
theorem inScope_iff {c : CheckState} {body : List Node} {result : StaticType}
    {a : List Annotation} (hbody : (∃ c', checkAll body c.enter = (.ok a, c')) ↔
      Block result c.scopes.push body a) :
    (∃ c', inScope (checkAll body) c = (.ok a, c')) ↔ Block result c.scopes.push body a := by
  rw [← hbody]
  constructor
  · rintro ⟨c', h⟩
    obtain ⟨c₁, hcheck, _⟩ := inScope_eq_ok h
    exact ⟨c₁, hcheck⟩
  · rintro ⟨c₁, hcheck⟩
    exact ⟨c₁.leave, inScope_of_ok hcheck⟩

theorem Derivation.Statement.isOrdinary {result : StaticType} {k k' : Chain} {s : Node}
    {as : List Annotation} (h : Statement result k s k' as) (hk : k.IsOrdinary) :
    k'.IsOrdinary := by
  cases h with
  | declaration _ hdeclares => exact hdeclares.isOrdinary hk ⟨_, rfl⟩
  | evaluation | assignment | conditional | loop | «switch» | plainReturn | returning => exact hk

mutual

/-- A statement is accepted exactly where it has a derivation. -/
theorem check_iff : ∀ {s : Node} {c : CheckState} {k : Chain} {a : List Annotation},
    c.enclosing = some f → c.scopes.IsOrdinary → s.Every Node.IsInner → s.Every Node.IsFormed →
    (∀ value body, s ≠ .arm value body) →
    ((∃ c', check s c = (.ok a, c') ∧ c'.scopes = k) ↔
      Statement f.returnType c.scopes s k a)
  | .declaration name typeName value, c, k, a, _, hc, ⟨_, hvalue⟩, ⟨⟨hname, htype⟩, hvalue'⟩,
      _ => by
      unfold check
      rw [declare_iff hc hname htype hvalue hvalue']
      constructor
      · rintro ⟨t, as, hdeclared, hdeclares, rfl⟩
        exact .declaration hdeclared hdeclares
      · intro h
        cases h with
        | declaration hdeclared hdeclares => exact ⟨_, _, hdeclared, hdeclares, rfl⟩
  | .evaluation e, c, k, a, _, hc, ⟨_, he⟩, ⟨_, he'⟩, _ => by
      constructor
      · rintro ⟨c', h, rfl⟩
        obtain ⟨rfl, found, hfound, rfl⟩ := evaluation_eq_ok h
        obtain ⟨t, as, rfl, htyped⟩ := (typeOf_iff hc he he').mp hfound
        exact .evaluation htyped
      · intro h
        cases h with
        | evaluation htyped =>
            refine ⟨c, ?_, rfl⟩
            rw [check, typeHere_bind_of_ok ((typeOf_iff hc he he').mpr ⟨_, _, rfl, htyped⟩)]
            rfl
  | .assignment target value, c, k, a, _, hc, ⟨_, ht, hv⟩, ⟨_, ht', hv'⟩, _ => by
      unfold check
      exact assignment_iff hc ht ht' hv hv'
  | .conditional test thenBody elseBody, c, k, a, hf, hc, ⟨_, ht, ha, hb⟩,
      ⟨⟨hthenArm, helseArm⟩, ht', ha', hb'⟩, _ => by
      have hthenIff : ∀ {d : CheckState} {as}, d.enclosing = some f → d.scopes = c.scopes →
          ((∃ d', inScope (checkAll thenBody) d = (.ok as, d')) ↔
            Block f.returnType c.scopes.push thenBody as) := by
        intro d as hd hscopes
        rw [← hscopes] at hc ⊢
        exact inScope_iff (checkAll_iff hd (isOrdinary_push hc) ha ha' hthenArm)
      have helseIff : ∀ {d : CheckState} {as}, d.enclosing = some f → d.scopes = c.scopes →
          ((∃ d', inScope (checkAll elseBody) d = (.ok as, d')) ↔
            Block f.returnType c.scopes.push elseBody as) := by
        intro d as hd hscopes
        rw [← hscopes] at hc ⊢
        exact inScope_iff (checkAll_iff hd (isOrdinary_push hc) hb hb' helseArm)
      constructor
      · rintro ⟨c', h, rfl⟩
        unfold check at h
        obtain ⟨found, hfound, htype, h⟩ := condition_bind_eq_ok h
        split at h
        · cases h
        · rename_i hne
          obtain ⟨inThen, c₁, hthen, h⟩ := bind_eq_ok.mp h
          obtain ⟨inElse, c₂, helse, h⟩ := bind_eq_ok.mp h
          cases h
          obtain ⟨t, bs, rfl, htyped⟩ := (typeOf_iff hc ht ht').mp hfound
          cases htype
          have hsame := inScope_same ha hthen
          rw [(inScope_same hb helse).scopes, hsame.scopes]
          exact .conditional htyped (by simpa using hne) ((hthenIff hf rfl).mp ⟨_, hthen⟩)
            ((helseIff (hsame.enclosing.trans hf) hsame.scopes).mp ⟨_, helse⟩)
      · intro h
        cases h with
        | conditional htyped hne hthen helse =>
            obtain ⟨c₁, hthen⟩ := (hthenIff hf rfl).mpr hthen
            have hsame := inScope_same ha hthen
            obtain ⟨c₂, helse⟩ :=
              (helseIff (hsame.enclosing.trans hf) hsame.scopes).mpr helse
            refine ⟨c₂, ?_, (inScope_same hb helse).scopes.trans hsame.scopes⟩
            rw [check, condition_bind_of_ok ((typeOf_iff hc ht ht').mpr ⟨_, _, rfl, htyped⟩),
              if_neg (by simpa using hne), bind_of_ok hthen, bind_of_ok helse]
            rfl
  | .loop test body, c, k, a, hf, hc, ⟨_, ht, hb⟩, ⟨hnoArm, ht', hb'⟩, _ => by
      have hbodyIff : ∀ {as}, (∃ d, inScope (checkAll body) c = (.ok as, d)) ↔
          Block f.returnType c.scopes.push body as :=
        inScope_iff (checkAll_iff hf (isOrdinary_push hc) hb hb' hnoArm)
      constructor
      · rintro ⟨c', h, rfl⟩
        obtain ⟨found, inBody, hfound, htype, hbody, rfl⟩ := loop_eq_ok h
        obtain ⟨t, bs, rfl, htyped⟩ := (typeOf_iff hc ht ht').mp hfound
        cases htype
        rw [(inScope_same hb hbody).scopes]
        exact .loop htyped (hbodyIff.mp ⟨_, hbody⟩)
      · intro h
        cases h with
        | loop htyped hbody =>
            obtain ⟨c₁, hbody⟩ := hbodyIff.mpr hbody
            refine ⟨c₁, ?_, (inScope_same hb hbody).scopes⟩
            rw [check, condition_bind_of_ok ((typeOf_iff hc ht ht').mpr ⟨_, _, rfl, htyped⟩),
              bind_of_ok hbody]
            rfl
  | .switch test arms, c, k, a, hf, hc, ⟨_, ht, ha⟩, ⟨hne, ht', ha'⟩, _ => by
      constructor
      · rintro ⟨c', h, rfl⟩
        obtain ⟨found, inArms, hfound, harms, rfl⟩ := switch_eq_ok h
        obtain ⟨t, bs, rfl, htyped⟩ := (typeOf_iff hc ht ht').mp hfound
        rw [(checkArms_same ha harms).scopes]
        exact .switch htyped ((checkArms_iff hf hc ha ha' hne).mp ⟨_, harms⟩)
      · intro h
        cases h with
        | «switch» htyped harms =>
            obtain ⟨c₁, harms⟩ : ∃ c₁, checkArms (some _) 0 arms c = (.ok _, c₁) :=
              (checkArms_iff hf hc ha ha' hne).mpr harms
            refine ⟨c₁, ?_, (checkArms_same ha harms).scopes⟩
            rw [check, typeHere_bind_of_ok ((typeOf_iff hc ht ht').mpr ⟨_, _, rfl, htyped⟩),
              bind_of_ok harms]
            rfl
  | .returning value, c, k, a, hf, hc, ⟨_, hv⟩, ⟨_, hv'⟩, _ => by
      unfold check
      exact returning_iff hc hf hv hv'
  | .arm value body, _, _, _, _, _, _, _, hnoArm => absurd rfl (hnoArm value body)
  | .source _ _, _, _, _, _, _, hinner, _, _ => hinner.1.elim
  | .global _ _ _ _, _, _, _, _, _, hinner, _, _ => hinner.1.elim
  | .function _ _ _ _ _, _, _, _, _, _, hinner, _, _ => hinner.1.elim
  | .absent, _, _, _, _, _, _, _, _ | .literal _, _, _, _, _, _, _, _, _
  | .group _, _, _, _, _, _, _, _, _ | .binary _ _ _, _, _, _, _, _, _, _, _
  | .access _ _, _, _, _, _, _, _, _, _ | .call _ _, _, _, _, _, _, _, _, _
  | .list _, _, _, _, _, _, _, _, _ => by
      unfold check
      constructor
      · rintro ⟨c', h, _⟩
        cases h
      · intro h
        cases h

theorem checkAll_iff : ∀ {ss : List Node} {c : CheckState} {a : List Annotation},
    c.enclosing = some f → c.scopes.IsOrdinary → Node.EveryOf Node.IsInner ss →
    Node.EveryOf Node.IsFormed ss → Node.HasNoArm ss →
    ((∃ c', checkAll ss c = (.ok a, c')) ↔ Block f.returnType c.scopes ss a)
  | [], c, a, _, _, _, _, _ => by
      unfold checkAll
      constructor
      · rintro ⟨c', h⟩
        cases h
        exact .nil
      · intro h
        cases h
        exact ⟨c, rfl⟩
  | s :: ss, c, a, hf, hc, ⟨hs, hss⟩, ⟨hs', hss'⟩, hnoArm => by
      have hfirst : ∀ value body, s ≠ .arm value body := by
        rintro value body rfl
        exact hnoArm value body List.mem_cons_self
      have hothers : Node.HasNoArm ss := fun value body hmem =>
        hnoArm value body (List.mem_cons_of_mem _ hmem)
      constructor
      · rintro ⟨c', h⟩
        obtain ⟨found, others, c₁, hcheck, hrest, rfl⟩ := checkAll_cons h
        have hstatement := (check_iff hf hc hs hs' hfirst).mp ⟨c₁, hcheck, rfl⟩
        have henclosing := (check_continues hs hcheck).enclosing.trans hf
        exact .cons hstatement ((checkAll_iff henclosing (hstatement.isOrdinary hc) hss hss'
          hothers).mp ⟨c', hrest⟩)
      · intro h
        cases h with
        | cons hstatement hrest =>
            obtain ⟨c₁, hcheck, rfl⟩ := (check_iff hf hc hs hs' hfirst).mpr hstatement
            have henclosing := (check_continues hs hcheck).enclosing.trans hf
            obtain ⟨c', hrest⟩ := (checkAll_iff henclosing (hstatement.isOrdinary hc) hss hss'
              hothers).mpr hrest
            refine ⟨c', ?_⟩
            rw [checkAll, bind_of_ok hcheck, bind_of_ok hrest]
            rfl

theorem checkArms_iff : ∀ {arms : List Node} {c : CheckState} {t : StaticType} {position : Nat}
    {a : List Annotation}, c.enclosing = some f → c.scopes.IsOrdinary →
    Node.EveryOf Node.IsInner arms → Node.EveryOf Node.IsFormed arms → arms ≠ [] →
    ((∃ c', checkArms (some t) position arms c = (.ok a, c')) ↔
      Arms f.returnType c.scopes t arms a)
  | [], _, _, _, _, _, _, _, _, hne => absurd rfl hne
  | .arm value body :: arms, c, t, position, a, hf, hc, ⟨⟨_, hv, hb⟩, has⟩,
      ⟨⟨hnoArm, hv', hb'⟩, has'⟩, _ => by
      have hbodyIff : ∀ {as}, (∃ d, inScope (checkAll body) c = (.ok as, d)) ↔
          Block f.returnType c.scopes.push body as :=
        inScope_iff (checkAll_iff hf (isOrdinary_push hc) hb hb' hnoArm)
      constructor
      · rintro ⟨c', h⟩
        obtain ⟨_, _, found, inBody, others, c₁, heq, hvalue, hbody, hothers, rfl⟩ :=
          checkArms_cons h
        cases heq
        have hblock := hbodyIff.mp ⟨_, hbody⟩
        have hsame := inScope_same hb hbody
        cases hvalue with
        | last hlast =>
            obtain rfl := List.isEmpty_iff.mp hlast
            cases hothers
            rw [List.nil_append, List.append_nil]
            exact .last hblock
        | literal hlast hfound htype =>
            obtain ⟨s, as, rfl, htyped⟩ := (typeOf_iff hc hv hv').mp hfound
            cases htype
            cases htyped with
            | literal hliteral =>
                have hne : arms ≠ [] := by simpa using hlast
                have hrest := (checkArms_iff (hsame.enclosing.trans hf)
                  (by rwa [hsame.scopes]) has has' hne).mp ⟨c', hothers⟩
                rw [hsame.scopes] at hrest
                exact .cons hliteral hblock hrest
      · intro h
        cases h with
        | last hblock =>
            obtain ⟨c₁, hbody⟩ := hbodyIff.mpr hblock
            refine ⟨c₁, ?_⟩
            unfold checkArms
            dsimp only
            have hvalue : lastCaseValue (.arm .absent body) c = (.ok [], c) := rfl
            have hothers : checkArms (some t) (position + 1) [] c₁ = (.ok [], c₁) := by
              rw [checkArms]
              rfl
            rw [if_pos List.isEmpty_nil, bind_of_ok hvalue, checkArmBody, bind_of_ok hbody,
              bind_of_ok hothers, List.nil_append, List.append_nil]
            rfl
        | cons hliteral hblock hrest =>
            obtain ⟨c₁, hbody⟩ := hbodyIff.mpr hblock
            have hsame := inScope_same hb hbody
            have hne : arms ≠ [] := by
              rintro rfl
              cases hrest
            rw [← hsame.scopes] at hrest
            obtain ⟨c', hothers⟩ : ∃ c', checkArms (some t) (position + 1) arms c₁ = (.ok _, c') :=
              (checkArms_iff (hsame.enclosing.trans hf) (by rwa [hsame.scopes]) has has' hne).mpr
                hrest
            have hfound : typeOf c.scopes none _ = .ok ⟨some t, _⟩ :=
              (typeOf_iff hc hv hv').mpr ⟨_, _, rfl, .literal hliteral⟩
            refine ⟨c', ?_⟩
            unfold checkArms
            dsimp only
            rw [if_neg (by simpa using hne), bind_of_ok (caseValue_of_literal hfound),
              checkArmBody, bind_of_ok hbody, bind_of_ok hothers]
            rfl
  | .absent :: _, _, _, _, _, _, _, _, _, _ | .source _ _ :: _, _, _, _, _, _, _, _, _, _
  | .global _ _ _ _ :: _, _, _, _, _, _, _, _, _, _
  | .function _ _ _ _ _ :: _, _, _, _, _, _, _, _, _, _
  | .evaluation _ :: _, _, _, _, _, _, _, _, _, _
  | .declaration _ _ _ :: _, _, _, _, _, _, _, _, _, _
  | .assignment _ _ :: _, _, _, _, _, _, _, _, _, _
  | .conditional _ _ _ :: _, _, _, _, _, _, _, _, _, _ | .switch _ _ :: _, _, _, _, _, _, _, _, _, _
  | .loop _ _ :: _, _, _, _, _, _, _, _, _, _ | .returning _ :: _, _, _, _, _, _, _, _, _, _
  | .literal _ :: _, _, _, _, _, _, _, _, _, _ | .group _ :: _, _, _, _, _, _, _, _, _, _
  | .binary _ _ _ :: _, _, _, _, _, _, _, _, _, _ | .access _ _ :: _, _, _, _, _, _, _, _, _, _
  | .call _ _ :: _, _, _, _, _, _, _, _, _, _ | .list _ :: _, _, _, _, _, _, _, _, _, _ => by
      constructor
      · rintro ⟨c', h⟩
        obtain ⟨_, _, _, _, _, _, heq, _⟩ := checkArms_cons h
        cases heq
      · intro h
        cases h

end

end Statements

section Functions

theorem mapM_iff {ε α β : Type} {g : α → Except ε β} {as : List α} {bs : List β} :
    as.mapM g = .ok bs ↔ List.Forall₂ (fun a b => g a = .ok b) as bs := by
  refine ⟨mapM_eq_ok, fun h => ?_⟩
  induction h with
  | nil => rfl
  | cons hfirst _ ih =>
      rw [List.mapM_cons]
      exact except_bind_eq_ok.mpr ⟨_, hfirst, except_bind_eq_ok.mpr ⟨_, ih, rfl⟩⟩

theorem signature_iff {name returnType : Name} {parameters parameterTypes : List Name}
    {body : List Node} (hparameterTypes : ∀ t ∈ parameterTypes, Node.IsTypeName t)
    (hreturn : Node.IsTypeName returnType) {f : Function} :
    signature name parameters parameterTypes returnType body = .ok f ↔
      ∃ ts t, List.Forall₂ (TypeName .any) parameterTypes ts ∧ TypeName .nil returnType t ∧
        f = ⟨name, name, ts, t, .declared parameters body⟩ := by
  have hall : ∀ {ts}, parameterTypes.mapM (typeNamedOr .any) = .ok ts ↔
      List.Forall₂ (TypeName .any) parameterTypes ts := by
    intro ts
    rw [mapM_iff, List.forall₂_iff_get, List.forall₂_iff_get]
    refine and_congr_right fun _ => forall_congr' fun i => forall_congr' fun hi =>
      forall_congr' fun _ => typeNamedOr_iff (hparameterTypes _ (List.get_mem _ _))
  unfold signature
  constructor
  · intro h
    obtain ⟨ts, hts, h⟩ := except_bind_eq_ok.mp h
    obtain ⟨t, ht, h⟩ := except_bind_eq_ok.mp h
    cases h
    exact ⟨ts, t, hall.mp hts, (typeNamedOr_iff hreturn).mp ht, rfl⟩
  · rintro ⟨ts, t, hts, ht, rfl⟩
    exact except_bind_eq_ok.mpr ⟨ts, hall.mpr hts, except_bind_eq_ok.mpr
      ⟨t, (typeNamedOr_iff hreturn).mpr ht, rfl⟩⟩

theorem Derivation.Parameters.isOrdinary {k k' : Chain} {names : List Name}
    {ts : List StaticType} (h : Parameters k names ts k') (hk : k.IsOrdinary) :
    k'.IsOrdinary := by
  induction h with
  | nil => exact hk
  | cons hdeclares _ ih => exact ih (hdeclares.isOrdinary hk ⟨_, rfl⟩)

theorem bindParameters_iff {names : List Name} {ts : List StaticType} {c c' : CheckState}
    (hnames : ∀ p ∈ names, Node.IsText p) (hlength : names.length = ts.length) :
    bindParameters names ts c = (.ok (), c') ↔
      ∃ k, Parameters c.scopes names ts k ∧ c' = { c with scopes := k } := by
  induction names generalizing ts c with
  | nil =>
      obtain rfl : ts = [] := List.length_eq_zero_iff.mp hlength.symm
      constructor
      · intro h
        cases h
        exact ⟨_, .nil, rfl⟩
      · rintro ⟨k, h, rfl⟩
        cases h
        rfl
  | cons name names ih =>
      cases ts with
      | nil => cases hlength
      | cons t ts =>
          have hname := (hnames name List.mem_cons_self).isBindable
          have hothers := fun p hp => hnames p (List.mem_cons_of_mem _ hp)
          have hlength := Nat.succ.inj hlength
          unfold bindParameters
          constructor
          · intro h
            obtain ⟨u, c₁, hbind, hrest⟩ := bind_eq_ok.mp h
            obtain ⟨k₁, hdeclares, rfl⟩ := (bindVariable_iff hname).mp hbind
            obtain ⟨k, hparameters, rfl⟩ := (ih hothers hlength).mp hrest
            exact ⟨k, .cons hdeclares hparameters, rfl⟩
          · rintro ⟨k, h, rfl⟩
            cases h with
            | cons hdeclares hparameters =>
                have hbind := (bindVariable_iff (u := ()) hname).mpr ⟨_, hdeclares, rfl⟩
                rw [bind_of_ok hbind]
                exact (ih hothers hlength).mpr ⟨k, hparameters, rfl⟩

variable {c : CheckState}

theorem inFunction_of_ok {α : Type} {f : Function} {m : Checking α} {x : α} {c₁ : CheckState}
    (h : m (c.enterFunction f) = (.ok x, c₁)) :
    inFunction f m c = (.ok x, c₁.leaveFunction) := by
  change (m.afterwards CheckState.leaveFunction) (c.enterFunction f) = (.ok x, c₁.leaveFunction)
  rw [afterwards_apply, h]

/-- A function is accepted when its body is entered and then accepted. -/
theorem function_of_ok {name returnType : Name} {parameters parameterTypes : List Name}
    {body : List Node} {f : Function} {entry c₁ : CheckState} {inBody : List Annotation}
    (henter : enterBody name parameters parameterTypes returnType body c = (.ok f, entry))
    (hcheck : checkAll body entry = (.ok inBody, c₁)) :
    check (.function name parameters parameterTypes returnType body) c =
      (.ok (⟨.function name parameters parameterTypes returnType body, .function f⟩ :: inBody),
        c₁.leaveFunction) := by
  unfold enterBody at henter
  obtain ⟨g, hsignature, henter⟩ := lift_bind_eq_ok henter
  obtain ⟨_, c₂, hbind, henter⟩ := bind_eq_ok.mp henter
  obtain ⟨_, c₃, hnote, henter⟩ := bind_eq_ok.mp henter
  obtain ⟨_, c₄, hchange, henter⟩ := bind_eq_ok.mp henter
  cases hchange
  obtain ⟨_, c₅, hparameters, henter⟩ := bind_eq_ok.mp henter
  cases henter
  have hinner : (bindParameters parameters f.parameterTypes >>= fun _ => checkAll body)
      (c₃.enterFunction f) = (.ok inBody, c₁) := by
    rw [bind_of_ok hparameters, hcheck]
  rw [check, lift_bind_of_ok hsignature, bind_of_ok hbind, bind_of_ok hnote,
    bind_of_ok (inFunction_of_ok hinner)]
  rfl

/-- The scopes behind a function are those with the function of its signature. -/
theorem scopes_of_function {name returnType : Name} {parameters parameterTypes : List Name}
    {body : List Node} {f : Function} {c' : CheckState} {a : List Annotation}
    (hinner : Node.EveryOf Node.IsInner body)
    (hsignature : signature name parameters parameterTypes returnType body = .ok f)
    (h : check (.function name parameters parameterTypes returnType body) c = (.ok a, c')) :
    c'.scopes = ⟨c.scopes.current.withFunction f, c.scopes.outer⟩ := by
  obtain ⟨g, entry, henter, hscopes⟩ := function_scopes hinner h
  obtain ⟨hg, _⟩ := enterBody_eq_ok henter
  rw [hsignature] at hg
  cases hg
  exact hscopes

/-- The declaration of a function is accepted exactly where it has a derivation. -/
theorem function_iff (hc : c.scopes.IsOrdinary) {node : Node} (hfunction : node.IsFunction)
    (hformed : node.Every Node.IsFormed) {k : Chain} {a : List Annotation} :
    (∃ c', check node c = (.ok a, c') ∧ c'.scopes = k) ↔
      FunctionDeclaration c.scopes node k a := by
  cases node with
  | function name parameters parameterTypes returnType body =>
      obtain ⟨hlength, _, hinner⟩ := hfunction
      obtain ⟨⟨hname, hparameters, htypes, hreturn, hnoArm⟩, hbody⟩ := hformed
      constructor
      · rintro ⟨c', h, rfl⟩
        obtain ⟨f, entry, inBody, c₁, henter, hcheck, _, rfl⟩ := function_eq_ok h
        obtain ⟨hsignature, _, hnone, c₂, hscopes, henclosing, hbind⟩ := enterBody_eq_ok henter
        rw [scopes_of_function hinner hsignature h]
        obtain ⟨ts, t, hts, ht, rfl⟩ := (signature_iff htypes hreturn).mp hsignature
        have hlength := hlength.trans hts.length_eq
        obtain ⟨k, hparams, rfl⟩ := (bindParameters_iff hparameters hlength).mp hbind
        have hdeclares : DeclaresFunction c.scopes ⟨name, name, ts, t, .declared parameters body⟩
            ⟨c.scopes.current.withFunction ⟨name, name, ts, t, .declared parameters body⟩,
              c.scopes.outer⟩ :=
          ⟨fun g hg => by simpa using List.find?_eq_none.mp hnone g hg, rfl⟩
        have hordinary := isOrdinary_push (hdeclares.isOrdinary hc)
        rw [hscopes] at hparams
        exact .intro hts ht hdeclares hparams
          ((checkAll_iff (c := { c₂ with scopes := k }) henclosing (hparams.isOrdinary hordinary)
            hinner hbody hnoArm).mp ⟨c₁, hcheck⟩)
      · intro h
        cases h with
        | @intro _ entry _ _ _ _ _ ts t as hts ht hdeclares hparams hblock =>
            have hsignature : signature name parameters parameterTypes returnType body =
                .ok ⟨name, name, ts, t, .declared parameters body⟩ :=
              (signature_iff htypes hreturn).mpr ⟨ts, t, hts, ht, rfl⟩
            have hbind := (bindFunction_iff (c := c) (u := ()) hname.isBindable).mpr
              ⟨k, hdeclares, rfl⟩
            have hordinary := isOrdinary_push (hdeclares.isOrdinary hc)
            obtain ⟨c₁, hc₁, hentry⟩ : ∃ c₁ : CheckState, c₁.scopes = k ∧
                (∀ c₂, bindParameters parameters ts (c₁.enterFunction
                  ⟨name, name, ts, t, .declared parameters body⟩) = (.ok (), c₂) →
                  enterBody name parameters parameterTypes returnType body c =
                    (.ok ⟨name, name, ts, t, .declared parameters body⟩, c₂)) := by
              refine ⟨{ c with
                scopes := k
                trace := c.trace.note 1 ("function " ++ ScopeFault.signature name.text
                  ts.length) }, rfl, ?_⟩
              intro c₂ h
              rw [enterBody, lift_bind_of_ok hsignature, bind_of_ok hbind]
              exact bind_eq_ok.mpr ⟨(), _, rfl, bind_eq_ok.mpr ⟨(), _, rfl,
                bind_eq_ok.mpr ⟨(), c₂, h, rfl⟩⟩⟩
            rw [← hc₁] at hparams hordinary
            have henter := hentry _ ((bindParameters_iff hparameters
              (hlength.trans hts.length_eq)).mpr ⟨entry, hparams, rfl⟩)
            obtain ⟨c₂, hcheck⟩ := (checkAll_iff
              (c := { c₁.enterFunction ⟨name, name, ts, t, .declared parameters body⟩ with
                scopes := entry }) rfl (hparams.isOrdinary hordinary) hinner hbody
              hnoArm).mpr hblock
            have hdone := function_of_ok henter hcheck
            refine ⟨_, hdone, ?_⟩
            rw [scopes_of_function hinner hsignature hdone, hdeclares.eq]
            rfl
  | _ => exact hfunction.elim

end Functions

section Programs

theorem Derivation.Global.isOrdinary {k k' : Chain} {g : Node} {as : List Annotation}
    (h : Global k g k' as) (hk : k.IsOrdinary) : k'.IsOrdinary := by
  cases h with
  | intro _ hdeclares => exact hdeclares.isOrdinary hk ⟨_, rfl⟩

theorem Derivation.FunctionDeclaration.isOrdinary {k k' : Chain} {f : Node}
    {as : List Annotation} (h : FunctionDeclaration k f k' as) (hk : k.IsOrdinary) :
    k'.IsOrdinary := by
  cases h with
  | intro _ _ hdeclares _ _ => exact hdeclares.isOrdinary hk

theorem Derivation.Row.isOrdinary {R : Chain → Node → Chain → List Annotation → Prop}
    (hR : ∀ {k node k' as}, R k node k' as → k.IsOrdinary → k'.IsOrdinary) {k k' : Chain}
    {nodes : List Node} {as : List Annotation} (h : Row R k nodes k' as) (hk : k.IsOrdinary) :
    k'.IsOrdinary := by
  induction h with
  | nil => exact hk
  | cons hfirst _ ih => exact ih (hR hfirst hk)

theorem global_iff {c : CheckState} (hc : c.scopes.IsOrdinary) {node : Node}
    (hglobal : node.IsGlobal) (hformed : node.Every Node.IsFormed) {k : Chain}
    {a : List Annotation} :
    (∃ c', check node c = (.ok a, c') ∧ c'.scopes = k) ↔ Global c.scopes node k a := by
  cases node with
  | global name typeName isMutable value =>
      obtain ⟨_, hinner⟩ := hglobal
      obtain ⟨⟨hname, htype⟩, hvalue⟩ := hformed
      unfold check
      rw [declare_iff hc hname htype hinner hvalue]
      constructor
      · rintro ⟨t, as, hdeclared, hdeclares, rfl⟩
        exact .intro hdeclared hdeclares
      · intro h
        cases h with
        | intro hdeclared hdeclares => exact ⟨_, _, hdeclared, hdeclares, rfl⟩
  | _ => exact hglobal.elim

/-- Globals are accepted one after the other exactly where they have derivations. -/
theorem globals_iff {globals : List Node} {c : CheckState} {k : Chain} {a : List Annotation}
    (hc : c.scopes.IsOrdinary) (hglobals : ∀ g ∈ globals, g.IsGlobal)
    (hformed : Node.EveryOf Node.IsFormed globals) :
    (∃ c', checkAll globals c = (.ok a, c') ∧ c'.scopes = k) ↔ Row Global c.scopes globals k a := by
  induction globals generalizing c a with
  | nil =>
      unfold checkAll
      constructor
      · rintro ⟨c', h, rfl⟩
        cases h
        exact .nil
      · intro h
        cases h
        exact ⟨c, rfl, rfl⟩
  | cons g globals ih =>
      have hfirst := hglobals g List.mem_cons_self
      have hothers := fun g hg => hglobals g (List.mem_cons_of_mem _ hg)
      constructor
      · rintro ⟨c', h, rfl⟩
        obtain ⟨found, others, c₁, hcheck, hrest, rfl⟩ := checkAll_cons h
        have hglobal := (global_iff hc hfirst hformed.1).mp ⟨c₁, hcheck, rfl⟩
        exact .cons hglobal ((ih (hglobal.isOrdinary hc) hothers hformed.2).mp ⟨c', hrest, rfl⟩)
      · intro h
        cases h with
        | cons hglobal hrest =>
            obtain ⟨c₁, hcheck, rfl⟩ := (global_iff hc hfirst hformed.1).mpr hglobal
            obtain ⟨c', hrest, hk⟩ := (ih (hglobal.isOrdinary hc) hothers hformed.2).mpr hrest
            refine ⟨c', ?_, hk⟩
            rw [checkAll, bind_of_ok hcheck, bind_of_ok hrest]
            rfl

/-- The declaration of a function with the name and the parameters of the one that a run
starts with. -/
def NamesMain (node : Node) : Prop :=
  ∃ parameterTypes returnType body, node = .function "main" [] parameterTypes returnType body

theorem declaresMain_iff {node : Node} (hfunction : node.IsFunction) {isMain : Bool} :
    declaresMain node = .ok isMain ↔
      (NamesMain node → IsMain node) ∧ (isMain = true ↔ IsMain node) := by
  cases node with
  | function name parameters parameterTypes returnType body =>
      unfold declaresMain
      dsimp only
      by_cases hnames : name = "main" ∧ parameters = []
      · obtain ⟨rfl, rfl⟩ := hnames
        rw [if_pos ⟨rfl, rfl⟩]
        have hnamesMain : NamesMain (.function "main" [] parameterTypes returnType body) :=
          ⟨_, _, _, rfl⟩
        by_cases htype : returnType = StaticType.integer.name
        · subst htype
          have hmain : IsMain (.function "main" [] parameterTypes
              StaticType.integer.name body) := ⟨_, _, rfl⟩
          rw [if_pos rfl]
          simp [hmain, eq_comm]
        · have hnot : ¬ IsMain (.function "main" [] parameterTypes returnType body) := by
            rintro ⟨_, _, heq⟩
            cases heq
            exact htype rfl
          rw [if_neg htype]
          constructor
          · intro h
            cases h
          · rintro ⟨h, _⟩
            exact absurd (h hnamesMain) hnot
      · rw [if_neg hnames]
        have hnot : ¬ NamesMain (.function name parameters parameterTypes returnType body) := by
          rintro ⟨_, _, _, heq⟩
          cases heq
          exact hnames ⟨rfl, rfl⟩
        have hnotMain : ¬ IsMain (.function name parameters parameterTypes returnType body) := by
          rintro ⟨_, _, heq⟩
          exact hnot ⟨_, _, _, heq⟩
        simp [hnot, hnotMain, eq_comm]
  | _ => exact hfunction.elim

/-- Functions are accepted one after the other exactly where they have derivations and each
that is named like `main` returns an integer. -/
theorem functions_iff {functions : List Node} {c : CheckState} {k : Chain} {hasMain : Bool}
    {a : List Annotation} (hc : c.scopes.IsOrdinary)
    (hfunctions : ∀ f ∈ functions, f.IsFunction)
    (hformed : Node.EveryOf Node.IsFormed functions) :
    (∃ c', checkFunctions functions c = (.ok (hasMain, a), c') ∧ c'.scopes = k) ↔
      Row FunctionDeclaration c.scopes functions k a ∧
        (∀ f ∈ functions, NamesMain f → IsMain f) ∧
        (hasMain = true ↔ ∃ f ∈ functions, IsMain f) := by
  induction functions generalizing c a hasMain with
  | nil =>
      unfold checkFunctions
      constructor
      · rintro ⟨c', h, rfl⟩
        cases h
        exact ⟨.nil, by simp, by simp⟩
      · rintro ⟨h, _, hmain⟩
        cases h
        obtain rfl : hasMain = false := by simpa using hmain
        exact ⟨c, rfl, rfl⟩
  | cons f functions ih =>
      have hfirst := hfunctions f List.mem_cons_self
      have hothers := fun f hf => hfunctions f (List.mem_cons_of_mem _ hf)
      constructor
      · rintro ⟨c', h, rfl⟩
        obtain ⟨isMain, found, hasMain', others, c₁, hmain, hcheck, hrest, rfl, rfl⟩ :=
          checkFunctions_cons h
        have hfunction := (function_iff hc hfirst hformed.1).mp ⟨c₁, hcheck, rfl⟩
        obtain ⟨hrow, hnames, hexists⟩ :=
          (ih (hfunction.isOrdinary hc) hothers hformed.2).mp ⟨c', hrest, rfl⟩
        obtain ⟨hname, hisMain⟩ := (declaresMain_iff hfirst).mp hmain
        refine ⟨.cons hfunction hrow, ?_, ?_⟩
        · intro g hg
          rcases List.mem_cons.mp hg with rfl | hg
          · exact hname
          · exact hnames g hg
        · simp [hisMain, hexists]
      · rintro ⟨h, hnames, hexists⟩
        cases h with
        | cons hfunction hrow =>
            obtain ⟨c₁, hcheck, rfl⟩ := (function_iff hc hfirst hformed.1).mpr hfunction
            classical
            have hmain : declaresMain f = .ok (decide (IsMain f)) :=
              (declaresMain_iff hfirst).mpr
                ⟨hnames f List.mem_cons_self, by simp⟩
            obtain ⟨c', hrest, hk⟩ : ∃ c', checkFunctions functions c₁ =
                (.ok (decide (∃ f ∈ functions, IsMain f), _), c') ∧ c'.scopes = k :=
              (ih (hfunction.isOrdinary hc) hothers hformed.2).mpr
                ⟨hrow, fun f hf => hnames f (List.mem_cons_of_mem _ hf), by simp⟩
            obtain rfl : hasMain =
                (decide (IsMain f) || decide (∃ f ∈ functions, IsMain f)) := by
              rw [Bool.eq_iff_iff, hexists]
              simp
            refine ⟨c', ?_, hk⟩
            rw [checkFunctions, lift_bind_of_ok hmain, bind_of_ok hcheck, bind_of_ok hrest]
            rfl

theorem arity_of_namesMain {k k' : Chain} {f : Node} {a : List Annotation}
    (h : FunctionDeclaration k f k' a) (hname : NamesMain f) :
    ∃ g, g.answers "main" 0 = true ∧ DeclaresFunction k g k' := by
  obtain ⟨_, _, _, rfl⟩ := hname
  cases h with
  | intro hts _ hdeclares hparameters _ =>
      cases hparameters
      exact ⟨_, rfl, hdeclares⟩

/-- Where a function named like `main` is declared, no further one is. -/
theorem not_namesMain_of_declared {functions : List Node} {k k' : Chain} {a : List Annotation}
    (h : Row FunctionDeclaration k functions k' a)
    (hdeclared : ∃ f ∈ k.current.functions, f.answers "main" 0 = true) :
    ∀ f ∈ functions, ¬ NamesMain f := by
  induction h with
  | nil => simp
  | cons hfirst _ ih =>
      obtain ⟨f, hf, hanswers⟩ := hdeclared
      intro g hg
      rcases List.mem_cons.mp hg with rfl | hg
      · intro hname
        obtain ⟨main, hmain, hdeclares⟩ := arity_of_namesMain hfirst hname
        obtain ⟨hsame, harity⟩ := answers_iff.mp hmain
        obtain ⟨hsame', harity'⟩ := answers_iff.mp hanswers
        have hnew := hdeclares.isNew f hf
        rw [answers_iff.mpr ⟨Name.same_iff.mpr ((Name.same_iff.mp hsame').trans
          (Name.same_iff.mp hsame).symm), harity'.trans harity.symm⟩] at hnew
        cases hnew
      · refine ih ⟨f, ?_, hanswers⟩ g hg
        cases hfirst with
        | intro _ _ hdeclares _ _ =>
            rw [hdeclares.eq]
            exact List.mem_cons_of_mem _ hf

/-- The function `main` of a program is its only one of this name and number of parameters. -/
theorem isMain_of_namesMain {functions : List Node} {k k' : Chain} {a : List Annotation}
    (h : Row FunctionDeclaration k functions k' a) (hmain : ∃ f ∈ functions, IsMain f) :
    ∀ f ∈ functions, NamesMain f → IsMain f := by
  induction h with
  | nil => simp
  | @cons k k₁ k' node nodes as bs hfirst hrest ih =>
      intro g hg hname
      by_cases hnode : NamesMain node
      · obtain ⟨main, hanswers, hdeclares⟩ := arity_of_namesMain hfirst hnode
        have hothers := not_namesMain_of_declared hrest
          ⟨main, by rw [hdeclares.eq]; exact List.mem_cons_self, hanswers⟩
        have honly : ∀ f ∈ node :: nodes, NamesMain f → f = node := by
          intro f hf hf'
          rcases List.mem_cons.mp hf with rfl | hf
          · rfl
          · exact absurd hf' (hothers f hf)
        obtain ⟨f, hf, hisMain⟩ := hmain
        have hf' : NamesMain f := by
          obtain ⟨_, _, rfl⟩ := hisMain
          exact ⟨_, _, _, rfl⟩
        rw [honly g hg hname, ← honly f hf hf']
        exact hisMain
      · have hinner : ∀ {f}, f ∈ node :: nodes → NamesMain f → f ∈ nodes := by
          intro f hf hf'
          rcases List.mem_cons.mp hf with rfl | hf
          · exact absurd hf' hnode
          · exact hf
        obtain ⟨f, hf, hisMain⟩ := hmain
        have hf' : NamesMain f := by
          obtain ⟨_, _, rfl⟩ := hisMain
          exact ⟨_, _, _, rfl⟩
        exact ih ⟨f, hinner hf hf', hisMain⟩ g (hinner hg hname) hname

theorem isOrdinary_root {surroundings : List Scope} (h : ∀ s ∈ surroundings, s.IsOrdinary) :
    (Chain.root surroundings).IsOrdinary := by
  intro s hs
  rcases List.mem_cons.mp hs with rfl | hs
  · exact ⟨.nil, List.pairwise_singleton _ _, nofun⟩
  · exact h s hs

/-- The checker accepts a program exactly where it has a derivation, with the same records. -/
theorem checkProgram_iff {surroundings : List Scope} {trace : Trace} {program : Node}
    {a : List Annotation} (hsurroundings : ∀ s ∈ surroundings, s.IsOrdinary)
    (hprogram : program.IsProgram) (hformed : program.Every Node.IsFormed) :
    (BlockScript.checkProgram surroundings trace program).1 = .ok a ↔
      Program surroundings program a := by
  cases program with
  | source globals functions =>
      obtain ⟨hglobals, hfunctions⟩ := hprogram
      obtain ⟨_, hglobals', hfunctions'⟩ := hformed
      have hroot : (opening surroundings trace).scopes.IsOrdinary := isOrdinary_root hsurroundings
      constructor
      · intro h
        obtain ⟨globals', functions', found, others, c₁, c₂, heq, hcheck, hcheck', rfl, _⟩ :=
          checkProgram_eq_ok (Prod.ext h rfl : BlockScript.checkProgram surroundings trace
            (.source globals functions) = (.ok a, _))
        cases heq
        have hrow := (globals_iff hroot hglobals hglobals').mp ⟨c₁, hcheck, rfl⟩
        have hc₁ := hrow.isOrdinary Global.isOrdinary hroot
        obtain ⟨hrow', _, hmain⟩ :=
          (functions_iff hc₁ hfunctions hfunctions').mp ⟨c₂, hcheck', rfl⟩
        exact .intro hrow hrow' (hmain.mp rfl)
      · intro h
        cases h with
        | intro hrow hrow' hmain =>
            obtain ⟨c₁, hcheck, rfl⟩ := (globals_iff (c := opening surroundings trace) hroot
              hglobals hglobals').mpr hrow
            have hc₁ := hrow.isOrdinary Global.isOrdinary hroot
            obtain ⟨c₂, hcheck', _⟩ : ∃ c₂, checkFunctions functions c₁ = (.ok (true, _), c₂) ∧
                c₂.scopes = _ :=
              (functions_iff hc₁ hfunctions hfunctions').mpr
                ⟨hrow', isMain_of_namesMain hrow' hmain, by simp [hmain]⟩
            have hopen : note 1 "analyze: start" (.start surroundings trace) =
              (.ok (), opening surroundings trace) := rfl
            rw [BlockScript.checkProgram, checkProgram, bind_of_ok hopen, bind_of_ok hcheck,
              bind_of_ok hcheck']
            rfl
  | _ => exact hprogram.elim

end Programs

end Typing
end BlockScript
