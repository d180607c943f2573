import BlockScript.Proofs.Typing.Derivation
import BlockScript.Proofs.Typing.Statements

/-!
# What the single rules decide

Each test that the checker makes holds exactly where the rule does: for literals, operators,
names of types, assignments, and for names that are found or made in scopes.  Lookups need
scopes in which a name is bound once and every variable has a type; declarations keep them so.
-/

namespace BlockScript

/-- Two functions differ in their names or in their numbers of parameters. -/
def Function.Differ (f g : Function) : Prop := g.answers f.name f.arity = false

/-- No name is bound twice in a scope, and its variables have types. -/
structure Scope.IsOrdinary (s : Scope) : Prop where
  distinct : s.Distinct
  functions : s.functions.Pairwise Function.Differ
  typed : ∀ v ∈ s.vars, ∃ t, v.type = some t

/-- All scopes are ordinary. -/
def Chain.IsOrdinary (c : Chain) : Prop := ∀ s ∈ c.toList, s.IsOrdinary

instance : Std.Symm Function.Differ where
  symm f g h := by
    unfold Function.Differ at *
    rw [← Bool.not_eq_true, answers_iff] at *
    rintro ⟨hsame, harity⟩
    exact h ⟨Name.same_iff.mpr (Name.same_iff.mp hsame).symm, harity.symm⟩

namespace Typing

open BlockScript.Typing.Derivation

section Types

theorem accepts_iff {target source : StaticType} :
    StaticType.accepts (some target) (some source) = true ↔ Assignable target source := by
  constructor
  · intro h
    by_cases hsame : source = target
    · subst hsame
      exact .same
    by_cases hany : target = .any
    · subst hany
      exact .any
    obtain ⟨hcomparable, hordered⟩ : target = .comparable ∧ source.isOrdered = true := by
      simpa [StaticType.accepts, hsame, hany] using h
    subst hcomparable
    refine .comparable ?_
    cases source with
    | integer | decimal | character | string => simp
    | any | nil | boolean | comparable => cases hordered
  · intro h
    cases h with
    | same => simp [StaticType.accepts]
    | any => simp [StaticType.accepts]
    | comparable hmem =>
        simp only [List.mem_cons, List.not_mem_nil, or_false] at hmem
        rcases hmem with rfl | rfl | rfl | rfl <;> rfl

theorem requireAssignable_iff {target source : StaticType} {u : Unit} :
    requireAssignable (some target) (some source) = .ok u ↔ Assignable target source := by
  rw [← accepts_iff]
  refine ⟨accepts_of_requireAssignable, fun h => ?_⟩
  rw [requireAssignable, if_pos h]

theorem requireArgument_iff {function : String} {target source : StaticType} {u : Unit} :
    requireArgument function (some target) (some source) = .ok u ↔ Assignable target source := by
  rw [← accepts_iff]
  refine ⟨accepts_of_requireArgument, fun h => ?_⟩
  rw [requireArgument, if_pos h]

theorem literalType_iff {s : Scalar} (hs : s.IsPlain) {t : StaticType} :
    literalType s = .ok t ↔ LiteralOf s t := by
  constructor
  · intro h
    cases s with
    | nil =>
        cases h
        exact .nil
    | boolean b =>
        cases h
        exact .boolean
    | integer n =>
        unfold literalType at h
        dsimp only at h
        split at h
        · rename_i hrange
          cases h
          unfold leastInteger greatestInteger at hrange
          exact .integer (by omega) (by omega)
        · split at h <;> cases h
    | decimal d =>
        cases d with
        | finite d =>
            have hdouble : d.IsDouble := by
              by_contra hnot
              rw [← Decimal.exceedsDouble_finite] at hnot
              simp [literalType, Decimal.signals, hnot, reject] at h
            have hfinite : (Decimal.finite d).exceedsDouble = false := by
              rw [← Bool.not_eq_true, Decimal.exceedsDouble_finite, not_not]
              exact hdouble
            simp only [literalType, Decimal.signals, hfinite, Bool.false_eq_true, if_false] at h
            cases h
            exact .decimal hdouble
        | infinite | undefined => exact hs.elim
    | character value =>
        cases h
        cases value with
        | string text => exact .character
        | _ => exact hs.elim
    | string text =>
        cases h
        exact .string
    | foreign => exact hs.elim
  · intro h
    cases h with
    | nil | boolean | character | string => rfl
    | integer hlow hhigh =>
        rw [literalType, if_pos]
        unfold leastInteger greatestInteger
        omega
    | decimal hdouble =>
        rename_i d
        have hfinite : (Decimal.finite d).exceedsDouble = false := by
          rw [← Bool.not_eq_true, Decimal.exceedsDouble_finite, not_not]
          exact hdouble
        simp [literalType, Decimal.signals, hfinite]

theorem binaryType_iff {operator : String} {l r : StaticType} {type : Option StaticType} :
    binaryType operator (some l) (some r) = .ok type ↔
      ∃ t, type = some t ∧ Operates operator l r t := by
  constructor
  · intro h
    unfold binaryType at h
    split at h
    · rename_i hoperator
      split at h
      · rename_i htypes
        obtain ⟨hl, hr⟩ := htypes
        cases h
        cases hl
        cases hr
        exact ⟨_, rfl, .logical (by simpa using hoperator)⟩
      · exact absurd h rejectNamingBoth_ne_ok
    split at h
    · rename_i hoperator
      subst hoperator
      split at h
      · rename_i htypes
        cases h
        rcases htypes with htype | htype
        · cases htype
          exact ⟨_, rfl, .textLeft⟩
        · cases htype
          exact ⟨_, rfl, .textRight⟩
      split at h
      · rename_i hnumbers
        cases h
        obtain ⟨rfl, hl⟩ : l = r ∧ (l = .integer ∨ l = .decimal) := by
          simpa [sameNumbers] using hnumbers
        exact ⟨_, rfl, .numbers (by simp) (by simpa using hl)⟩
      · exact absurd h rejectNamingBoth_ne_ok
    split at h
    · rename_i hoperator
      split at h
      · rename_i hnumbers
        cases h
        obtain ⟨rfl, hl⟩ : l = r ∧ (l = .integer ∨ l = .decimal) := by
          simpa [sameNumbers] using hnumbers
        exact ⟨_, rfl, .numbers (List.mem_cons_of_mem _ hoperator) (by simpa using hl)⟩
      · exact absurd h rejectNamingBoth_ne_ok
    split at h
    · rename_i hoperator
      subst hoperator
      split at h
      · rename_i htypes
        obtain ⟨hl, hr⟩ := htypes
        cases h
        cases hl
        cases hr
        exact ⟨_, rfl, .power⟩
      · exact absurd h rejectNamingBoth_ne_ok
    split at h
    · rename_i hoperator
      split at h
      · rename_i htypes
        cases h
        cases htypes
        exact ⟨_, rfl, .comparison hoperator⟩
      · exact absurd h rejectNamingBoth_ne_ok
    · cases h
  · rintro ⟨t, rfl, h⟩
    cases h with
    | logical hoperator =>
        rw [binaryType, if_pos (by simpa using hoperator), if_pos ⟨rfl, rfl⟩]
    | textLeft => simp [binaryType]
    | textRight => simp [binaryType]
    | numbers hoperator htype =>
        simp only [List.mem_cons, List.not_mem_nil, or_false] at hoperator htype
        rcases hoperator with rfl | rfl | rfl | rfl <;> rcases htype with rfl | rfl <;> rfl
    | power => rfl
    | comparison hoperator =>
        simp only [List.mem_cons, List.not_mem_nil, or_false] at hoperator
        rcases hoperator with rfl | rfl | rfl | rfl <;>
          simp [binaryType, arithmeticOperators, comparisonOperators]

theorem typeNamed_iff {name : Name} (hname : Node.IsText name) {t : StaticType} :
    typeNamed name = .ok t ↔ name = .ofText t.name := by
  constructor
  · intro h
    obtain ⟨s, rfl⟩ := hname
    exact congrArg Name.ofText (text_of_typeNamed h)
  · rintro rfl
    simp [typeNamed, StaticType.ofName?_name]

theorem typeNamedOr_iff {otherwise t : StaticType} {name : Name} (hname : Node.IsTypeName name) :
    typeNamedOr otherwise name = .ok t ↔ TypeName otherwise name t := by
  rcases hname with rfl | htext
  · constructor
    · intro h
      cases h
      exact .missing
    · intro h
      cases h
      rfl
  · have hnot : name.isMissing = false := by
      obtain ⟨s, rfl⟩ := htext
      rfl
    rw [typeNamedOr, if_neg (by simp [hnot]), typeNamed_iff htext]
    constructor
    · rintro rfl
      exact .named
    · intro h
      cases h with
      | missing => cases hnot
      | named => rfl

end Types

section Lookups

theorem nearest_iff {α : Type} {bindings : Scope → List α} {suits : α → Bool} {a : α}
    {ss : List Scope}
    (hone : ∀ s ∈ ss, ∀ a ∈ bindings s, ∀ b ∈ bindings s, suits a = true → suits b = true → a = b) :
    (ss.findSome? fun s => (bindings s).find? suits) = some a ↔ Nearest bindings suits ss a := by
  induction ss with
  | nil =>
      constructor
      · intro h
        cases h
      · intro h
        cases h
  | cons s outer ih =>
      have ih := ih fun s hs => hone s (List.mem_cons_of_mem _ hs)
      rw [List.findSome?_cons]
      cases hfind : (bindings s).find? suits with
      | some b =>
          have hmem : b ∈ bindings s := List.mem_of_find?_eq_some hfind
          have hsuits : suits b = true := List.find?_some hfind
          constructor
          · intro h
            cases h
            exact .here hmem hsuits
          · intro h
            cases h with
            | here ha hsuit =>
                exact congrArg some (hone s List.mem_cons_self b hmem a ha hsuits hsuit)
            | around hnone _ =>
                rw [hnone b hmem] at hsuits
                cases hsuits
      | none =>
          have hnone : ∀ b ∈ bindings s, suits b = false := fun b hb => by
            simpa using List.find?_eq_none.mp hfind b hb
          constructor
          · exact fun h => .around hnone (ih.mp h)
          · intro h
            cases h with
            | here ha hsuit =>
                rw [hnone a ha] at hsuit
                cases hsuit
            | around _ hrest => exact ih.mpr hrest

variable {c : Chain} {name : Name}

theorem lookupVariable_iff (hc : c.IsOrdinary) {v : Variable} :
    c.lookupVariable name = .ok v ↔ VariableOf c name v := by
  have hone : ∀ s ∈ c.toList, ∀ v ∈ s.vars, ∀ w ∈ s.vars, v.name.same name = true →
      w.name.same name = true → v = w := by
    intro s hs v hv w hw hvname hwname
    by_contra hne
    have hdiffer : w.name.same v.name = false := (hc s hs).distinct.forall hv hw hne
    rw [Name.same_iff.mpr ((Name.same_iff.mp hwname).trans (Name.same_iff.mp hvname).symm)]
      at hdiffer
    cases hdiffer
  rw [VariableOf, ← nearest_iff hone]
  unfold Chain.lookupVariable Scope.findVariable?
  cases c.toList.findSome? fun s => s.vars.find? fun v => v.name.same name <;> simp

theorem lookupFunction_iff (hc : c.IsOrdinary) {arity : Nat} {f : Function} :
    c.lookupFunction name arity = .ok f ↔ FunctionOf c name arity f := by
  have hone : ∀ s ∈ c.toList, ∀ f ∈ s.functions, ∀ g ∈ s.functions,
      f.answers name arity = true → g.answers name arity = true → f = g := by
    intro s hs f hf g hg hfname hgname
    obtain ⟨hfsame, rfl⟩ := answers_iff.mp hfname
    obtain ⟨hgsame, harity⟩ := answers_iff.mp hgname
    by_contra hne
    have hdiffer : g.answers f.name f.arity = false := (hc s hs).functions.forall hf hg hne
    rw [answers_iff.mpr ⟨Name.same_iff.mpr ((Name.same_iff.mp hgsame).trans
      (Name.same_iff.mp hfsame).symm), harity⟩] at hdiffer
    cases hdiffer
  rw [FunctionOf, ← nearest_iff hone]
  unfold Chain.lookupFunction Scope.findFunction?
  cases c.toList.findSome? fun s => s.functions.find? fun f => f.answers name arity <;> simp

end Lookups

section Growth

theorem isOrdinary_push {c : Chain} (hc : c.IsOrdinary) : c.push.IsOrdinary := by
  intro s hs
  rcases List.mem_cons.mp hs with rfl | hs
  · exact ⟨.nil, .nil, nofun⟩
  · exact hc s hs

theorem Derivation.Declares.isOrdinary {c c' : Chain} {v : Variable} (h : Declares c v c')
    (hc : c.IsOrdinary) (hv : ∃ t, v.type = some t) : c'.IsOrdinary := by
  rw [h.eq]
  intro s hs
  rcases List.mem_cons.mp hs with rfl | hs
  · have hcurrent := hc c.current List.mem_cons_self
    refine ⟨List.Pairwise.cons h.isNew hcurrent.distinct, hcurrent.functions, ?_⟩
    · intro w hw
      rcases List.mem_cons.mp hw with rfl | hw
      · exact hv
      · exact hcurrent.typed w hw
  · exact hc s (List.mem_cons_of_mem _ hs)

theorem Derivation.DeclaresFunction.isOrdinary {c c' : Chain} {f : Function}
    (h : DeclaresFunction c f c') (hc : c.IsOrdinary) : c'.IsOrdinary := by
  rw [h.eq]
  intro s hs
  rcases List.mem_cons.mp hs with rfl | hs
  · have hcurrent := hc c.current List.mem_cons_self
    exact ⟨hcurrent.distinct, .cons h.isNew hcurrent.functions, hcurrent.typed⟩
  · exact hc s (List.mem_cons_of_mem _ hs)

theorem bindVariable_iff {c c' : CheckState} {v : Variable} {u : Unit}
    (hname : v.name.isBindable = true) :
    bindVariable v c = (.ok u, c') ↔
      ∃ k, Declares c.scopes v k ∧ c' = { c with scopes := k } := by
  constructor
  · intro h
    obtain ⟨_, hnone, rfl⟩ := bindVariable_eq_ok h
    exact ⟨_, ⟨fun w hw => by simpa using List.find?_eq_none.mp hnone w hw, rfl⟩, rfl⟩
  · rintro ⟨k, ⟨hnew, rfl⟩, rfl⟩
    have hnone : c.scopes.current.findVariable? v.name = none :=
      List.find?_eq_none.mpr fun w hw => by simp [hnew w hw]
    have hdefine : boundUnder v.name (c.scopes.defineVariable v) =
        .ok ⟨{ c.scopes.current with vars := v :: c.scopes.current.vars }, c.scopes.outer⟩ := by
      rw [boundUnder, if_pos hname, Chain.defineVariable, Scope.defineVariable, hnone]
      rfl
    refine Computation.bind_eq_ok.mpr ⟨c, c, rfl, ?_⟩
    rw [hdefine]
    rfl

theorem bindFunction_iff {c c' : CheckState} {f : Function} {u : Unit}
    (hname : f.name.isBindable = true) :
    bindFunction f c = (.ok u, c') ↔
      ∃ k, DeclaresFunction c.scopes f k ∧ c' = { c with scopes := k } := by
  constructor
  · intro h
    obtain ⟨_, hnone, rfl⟩ := bindFunction_eq_ok h
    exact ⟨_, ⟨fun w hw => by simpa using List.find?_eq_none.mp hnone w hw, rfl⟩, rfl⟩
  · rintro ⟨k, ⟨hnew, rfl⟩, rfl⟩
    have hnone : c.scopes.current.findFunction? f.name f.arity = none :=
      List.find?_eq_none.mpr fun w hw => by simp [hnew w hw]
    have hdefine : boundUnder f.name (c.scopes.defineFunction f) =
        .ok ⟨{ c.scopes.current with functions := f :: c.scopes.current.functions },
          c.scopes.outer⟩ := by
      rw [boundUnder, if_pos hname, Chain.defineFunction, Scope.defineFunction, hnone]
      rfl
    refine Computation.bind_eq_ok.mpr ⟨c, c, rfl, ?_⟩
    rw [hdefine]
    rfl

end Growth

end Typing
end BlockScript
