import BlockScript.Proofs.Typing.Decisions

/-!
# Types are found exactly where there are derivations

The checker gives an expression a type, with the annotations of its parts, exactly where the
typing rules give it that type with those records.  The induction is over the tree: the parts
of an expression and the premises of its rule are the same.
-/

namespace BlockScript
namespace Typing

open BlockScript.Typing.Derivation

theorem requireIndex_iff {name : Name} {t : StaticType} {u : Unit} :
    requireIndex name (some t) = .ok u ↔ t = .integer := by
  unfold requireIndex
  by_cases h : t = .integer
  · simp [h]
  · rw [if_neg (by simpa using h)]
    exact ⟨fun hok => absurd hok rejectNaming_ne_ok, fun ht => absurd ht h⟩

theorem withElement_iff {t s : StaticType} {type : Option StaticType} :
    withElement (some t) (some s) = .ok type ↔ type = some t ∧ (t = .any ∨ s = t) := by
  unfold withElement
  rw [if_neg (by simp)]
  by_cases h : t = .any ∨ s = t
  · rw [if_pos (by simpa using h)]
    constructor
    · rintro ⟨⟩
      exact ⟨rfl, h⟩
    · rintro ⟨rfl, _⟩
      rfl
  · rw [if_neg (by simpa using h)]
    exact ⟨fun hok => absurd hok rejectNamingBoth_ne_ok, fun ht => absurd ht.2 h⟩

theorem boundUnder_iff {α : Type} {name : Name} (hname : Node.IsText name)
    {binding : Except ScopeFault α} {a : α} :
    boundUnder name binding = .ok a ↔ binding = .ok a := by
  refine ⟨fun h => (boundUnder_eq_ok h).2, ?_⟩
  rintro rfl
  rw [boundUnder, if_pos hname.isBindable]
  rfl

section Expressions

variable {c : Chain}

theorem Derivation.Nearest.exists_mem {α : Type} {bindings : Scope → List α} {suits : α → Bool}
    {ss : List Scope} {a : α} (h : Nearest bindings suits ss a) :
    ∃ s ∈ ss, a ∈ bindings s ∧ suits a = true := by
  induction h with
  | here ha hsuits => exact ⟨_, List.mem_cons_self, ha, hsuits⟩
  | around _ _ ih =>
      obtain ⟨s, hs, ha⟩ := ih
      exact ⟨s, List.mem_cons_of_mem _ hs, ha⟩

theorem VariableOf.typed (hc : c.IsOrdinary) {name : Name} {v : Variable}
    (h : VariableOf c name v) : ∃ t, v.type = some t := by
  obtain ⟨s, hs, hv, _⟩ := h.exists_mem
  exact (hc s hs).typed v hv

theorem FunctionOf.arity {name : Name} {arity : Nat} {f : Function}
    (h : FunctionOf c name arity f) : f.arity = arity := by
  obtain ⟨s, _, _, hanswers⟩ := h.exists_mem
  exact (answers_iff.mp hanswers).2

/-- The offset of an access, when types are found for it where there are derivations. -/
theorem typeOfOffset_iff {offset : Node} {name : Name} {as : List Annotation}
    (htypeOf : ∀ {found : Typed}, typeOf c none offset = .ok found ↔
      ∃ t as, found = ⟨some t, as⟩ ∧ Expression c none offset t as) :
    typeOfOffset c name offset = .ok as ↔
      offset = .absent ∧ as = [] ∨ Expression c none offset .integer as := by
  by_cases habsent : offset = .absent
  · subst habsent
    unfold typeOfOffset
    constructor
    · rintro ⟨⟩
      exact Or.inl ⟨rfl, rfl⟩
    · rintro (⟨_, rfl⟩ | h)
      · rfl
      · cases h
  · rw [typeOfOffset]
    · constructor
      · intro h
        obtain ⟨part, hpart, h⟩ := except_bind_eq_ok.mp h
        obtain ⟨u, hindex, h⟩ := except_bind_eq_ok.mp h
        cases h
        obtain ⟨t, as, rfl, htyped⟩ := htypeOf.mp hpart
        obtain rfl := requireIndex_iff.mp hindex
        exact Or.inr htyped
      · rintro (⟨habs, _⟩ | h)
        · exact absurd habs habsent
        · exact except_bind_eq_ok.mpr ⟨_, htypeOf.mpr ⟨_, _, rfl, h⟩,
            except_bind_eq_ok.mpr ⟨(), requireIndex_iff.mpr rfl, rfl⟩⟩
    · exact habsent

mutual

theorem typeOf_iff (hc : c.IsOrdinary) : ∀ {e : Node} {expected : Option StaticType}
    {found : Typed}, e.Every Node.IsInner → e.Every Node.IsFormed →
    (typeOf c expected e = .ok found ↔
      ∃ t as, found = ⟨some t, as⟩ ∧ Expression c expected e t as)
  | .literal s, _, _, hinner, _ => by
      unfold typeOf
      constructor
      · intro h
        obtain ⟨t, ht, h⟩ := except_bind_eq_ok.mp h
        cases h
        exact ⟨t, _, rfl, .literal ((literalType_iff hinner).mp ht)⟩
      · rintro ⟨t, as, rfl, h⟩
        cases h with
        | literal hs => exact except_bind_eq_ok.mpr ⟨t, (literalType_iff hinner).mpr hs, rfl⟩
  | .group inner, _, _, ⟨_, hinner⟩, ⟨_, hformed⟩ => by
      unfold typeOf
      constructor
      · intro h
        split at h
        · rename_i hbinary
          obtain ⟨part, hpart, h⟩ := except_bind_eq_ok.mp h
          cases h
          obtain ⟨t, as, rfl, htyped⟩ := (typeOf_iff hc hinner hformed).mp hpart
          cases inner with
          | binary operator left right => exact ⟨t, _, rfl, .group htyped⟩
          | _ => cases hbinary
        · cases h
      · rintro ⟨t, as, rfl, h⟩
        cases h with
        | group h =>
            have hpart := (typeOf_iff hc hinner hformed).mpr ⟨t, _, rfl, h⟩
            exact except_bind_eq_ok.mpr ⟨_, hpart, rfl⟩
  | .binary operator left right, _, _, ⟨_, hl, hr⟩, ⟨_, hl', hr'⟩ => by
      unfold typeOf
      constructor
      · intro h
        obtain ⟨l, hleft, h⟩ := except_bind_eq_ok.mp h
        obtain ⟨r, hright, h⟩ := except_bind_eq_ok.mp h
        obtain ⟨type, htype, h⟩ := except_bind_eq_ok.mp h
        cases h
        obtain ⟨tl, as, rfl, hleft'⟩ := (typeOf_iff hc hl hl').mp hleft
        obtain ⟨tr, bs, rfl, hright'⟩ := (typeOf_iff hc hr hr').mp hright
        obtain ⟨t, rfl, hoperates⟩ := binaryType_iff.mp htype
        exact ⟨t, _, rfl, .binary hleft' hright' hoperates⟩
      · rintro ⟨t, as, rfl, h⟩
        cases h with
        | binary hleft hright hoperates =>
            have hleft := (typeOf_iff hc hl hl').mpr ⟨_, _, rfl, hleft⟩
            have hright := (typeOf_iff hc hr hr').mpr ⟨_, _, rfl, hright⟩
            exact except_bind_eq_ok.mpr ⟨_, hleft, except_bind_eq_ok.mpr ⟨_, hright,
              except_bind_eq_ok.mpr ⟨_, binaryType_iff.mpr ⟨t, rfl, hoperates⟩, rfl⟩⟩⟩
  | .access name offset, _, _, ⟨_, hoffset⟩, ⟨hname, hoffset'⟩ => by
      unfold typeOf
      constructor
      · intro h
        obtain ⟨others, hothers, h⟩ := except_bind_eq_ok.mp h
        obtain ⟨v, hv, h⟩ := except_bind_eq_ok.mp h
        cases h
        have hv := (lookupVariable_iff hc).mp ((boundUnder_iff hname).mp hv)
        obtain ⟨t, ht⟩ := VariableOf.typed hc hv
        rw [ht]
        have hplace := (typeOfOffset_iff (typeOf_iff hc hoffset hoffset')).mp hothers
        rcases hplace with ⟨rfl, rfl⟩ | hoffset
        · exact ⟨t, _, rfl, .variable hv ht⟩
        · exact ⟨t, _, rfl, .item hoffset hv ht⟩
      · have hfinds : ∀ {v t as}, typeOfOffset c name offset = .ok as → VariableOf c name v →
            v.type = some t → (do
              let found ← typeOfOffset c name offset
              let target ← boundUnder name (c.lookupVariable name)
              return ⟨target.type, ⟨.access name offset, .access target⟩ :: found⟩ :
                Except CheckFailure Typed) =
              .ok ⟨some t, ⟨.access name offset, .access v⟩ :: as⟩ := by
          intro v t as hothers hv ht
          have hbound := (boundUnder_iff hname).mpr ((lookupVariable_iff hc).mpr hv)
          rw [← ht]
          exact except_bind_eq_ok.mpr ⟨_, hothers, except_bind_eq_ok.mpr ⟨v, hbound, rfl⟩⟩
        rintro ⟨t, as, rfl, h⟩
        cases h with
        | «variable» hv ht =>
            exact hfinds
              ((typeOfOffset_iff (typeOf_iff hc hoffset hoffset')).mpr (Or.inl ⟨rfl, rfl⟩)) hv ht
        | item hitem hv ht =>
            exact hfinds
              ((typeOfOffset_iff (typeOf_iff hc hoffset hoffset')).mpr (Or.inr hitem)) hv ht
  | .call name arguments, _, _, ⟨_, harguments⟩, ⟨hname, harguments'⟩ => by
      unfold typeOf
      constructor
      · intro h
        obtain ⟨f, hf, h⟩ := except_bind_eq_ok.mp h
        obtain ⟨others, hothers, h⟩ := except_bind_eq_ok.mp h
        cases h
        have hf := (lookupFunction_iff hc).mp ((boundUnder_iff hname).mp hf)
        have harity : arguments.length = f.parameterTypes.length := (FunctionOf.arity hf).symm
        exact ⟨f.returnType, _, rfl,
          .call hf ((typeOfArguments_iff hc harguments harguments' harity).mp hothers)⟩
      · rintro ⟨t, as, rfl, h⟩
        cases h with
        | @call _ _ _ f as hf hothers =>
            have harity : arguments.length = f.parameterTypes.length := (FunctionOf.arity hf).symm
            have hbound := (boundUnder_iff hname).mpr ((lookupFunction_iff hc).mpr hf)
            exact except_bind_eq_ok.mpr ⟨f, hbound, except_bind_eq_ok.mpr
              ⟨as, (typeOfArguments_iff hc harguments harguments' harity).mpr hothers, rfl⟩⟩
  | .list [], _, _, _, ⟨hne, _⟩ => absurd rfl hne
  | .list (first :: others), some t, _, ⟨_, helements⟩, ⟨_, helements'⟩ => by
      unfold typeOf
      constructor
      · intro h
        obtain ⟨part, hpart, h⟩ := except_bind_eq_ok.mp h
        cases h
        obtain ⟨as, rfl, htyped⟩ := (typeOfElements_iff hc helements helements').mp hpart
        exact ⟨t, _, rfl, .listOf (by simp) htyped⟩
      · rintro ⟨t, as, rfl, h⟩
        cases h with
        | listOf _ hpart =>
            have hpart := (typeOfElements_iff hc helements helements').mpr ⟨_, rfl, hpart⟩
            exact except_bind_eq_ok.mpr ⟨_, hpart, rfl⟩
  | .list (first :: others), none, _, ⟨_, hfirst, hothers⟩, ⟨_, hfirst', hothers'⟩ => by
      unfold typeOf typeOfElements
      constructor
      · intro h
        obtain ⟨found, hfound, h⟩ := except_bind_eq_ok.mp h
        cases h
        obtain ⟨part, hpart, h⟩ := except_bind_eq_ok.mp hfound
        obtain ⟨type, htype, h⟩ := except_bind_eq_ok.mp h
        obtain ⟨rest, hrest, h⟩ := except_bind_eq_ok.mp h
        cases h
        obtain ⟨t, as, rfl, htyped⟩ := (typeOf_iff hc hfirst hfirst').mp hpart
        cases htype
        obtain ⟨bs, rfl, htyped'⟩ := (typeOfElements_iff hc hothers hothers').mp hrest
        exact ⟨t, _, rfl, .list htyped htyped'⟩
      · rintro ⟨t, as, rfl, h⟩
        cases h with
        | list hpart hrest =>
            have hpart := (typeOf_iff hc hfirst hfirst').mpr ⟨_, _, rfl, hpart⟩
            have hrest := (typeOfElements_iff hc hothers hothers').mpr ⟨_, rfl, hrest⟩
            exact except_bind_eq_ok.mpr ⟨_, except_bind_eq_ok.mpr ⟨_, hpart,
              except_bind_eq_ok.mpr ⟨some t, rfl, except_bind_eq_ok.mpr ⟨_, hrest, rfl⟩⟩⟩, rfl⟩
  | .absent, _, _, _, _ | .source _ _, _, _, _, _ | .global _ _ _ _, _, _, _, _
  | .function _ _ _ _ _, _, _, _, _ | .evaluation _, _, _, _, _ | .declaration _ _ _, _, _, _, _
  | .assignment _ _, _, _, _, _ | .conditional _ _ _, _, _, _, _ | .arm _ _, _, _, _, _
  | .switch _ _, _, _, _, _ | .loop _ _, _, _, _, _ | .returning _, _, _, _, _ => by
      unfold typeOf
      constructor
      · intro h
        cases h
      · rintro ⟨t, as, _, h⟩
        cases h

theorem typeOfArguments_iff (hc : c.IsOrdinary) : ∀ {arguments : List Node} {function : String}
    {types : List StaticType} {as : List Annotation}, Node.EveryOf Node.IsInner arguments →
    Node.EveryOf Node.IsFormed arguments → arguments.length = types.length →
    (typeOfArguments c function arguments types = .ok as ↔ Arguments c arguments types as)
  | [], _, [], as, _, _, _ => by
      unfold typeOfArguments
      constructor
      · intro h
        cases h
        exact .nil
      · intro h
        cases h
        rfl
  | argument :: arguments, _, type :: types, as, ⟨ha, has⟩, ⟨ha', has'⟩, hlength => by
      unfold typeOfArguments
      constructor
      · intro h
        obtain ⟨part, hpart, h⟩ := except_bind_eq_ok.mp h
        obtain ⟨u, hrequire, h⟩ := except_bind_eq_ok.mp h
        obtain ⟨rest, hrest, h⟩ := except_bind_eq_ok.mp h
        cases h
        obtain ⟨s, bs, rfl, htyped⟩ := (typeOf_iff hc ha ha').mp hpart
        exact .cons htyped (requireArgument_iff.mp hrequire)
          ((typeOfArguments_iff hc has has' (Nat.succ.inj hlength)).mp hrest)
      · intro h
        cases h with
        | cons hpart hassignable hrest =>
            have hpart := (typeOf_iff hc ha ha').mpr ⟨_, _, rfl, hpart⟩
            exact except_bind_eq_ok.mpr ⟨_, hpart, except_bind_eq_ok.mpr
              ⟨(), requireArgument_iff.mpr hassignable, except_bind_eq_ok.mpr
                ⟨_, (typeOfArguments_iff hc has has' (Nat.succ.inj hlength)).mpr hrest, rfl⟩⟩⟩

theorem typeOfElements_iff (hc : c.IsOrdinary) : ∀ {elements : List Node} {t : StaticType}
    {found : Typed}, Node.EveryOf Node.IsInner elements → Node.EveryOf Node.IsFormed elements →
    (typeOfElements c (some t) elements = .ok found ↔
      ∃ as, found = ⟨some t, as⟩ ∧ Elements c t elements as)
  | [], t, _, _, _ => by
      unfold typeOfElements
      constructor
      · intro h
        cases h
        exact ⟨_, rfl, .nil⟩
      · rintro ⟨as, rfl, h⟩
        cases h
        rfl
  | element :: elements, t, _, ⟨he, hes⟩, ⟨he', hes'⟩ => by
      unfold typeOfElements
      constructor
      · intro h
        obtain ⟨part, hpart, h⟩ := except_bind_eq_ok.mp h
        obtain ⟨type, htype, h⟩ := except_bind_eq_ok.mp h
        obtain ⟨rest, hrest, h⟩ := except_bind_eq_ok.mp h
        cases h
        obtain ⟨s, as, rfl, htyped⟩ := (typeOf_iff hc he he').mp hpart
        obtain ⟨rfl, hfits⟩ := withElement_iff.mp htype
        obtain ⟨bs, rfl, htyped'⟩ := (typeOfElements_iff hc hes hes').mp hrest
        exact ⟨_, rfl, .cons htyped hfits htyped'⟩
      · rintro ⟨as, rfl, h⟩
        cases h with
        | cons hpart hfits hrest =>
            have hpart := (typeOf_iff hc he he').mpr ⟨_, _, rfl, hpart⟩
            have hrest := (typeOfElements_iff hc hes hes').mpr ⟨_, rfl, hrest⟩
            exact except_bind_eq_ok.mpr ⟨_, hpart, except_bind_eq_ok.mpr
              ⟨_, withElement_iff.mpr ⟨rfl, hfits⟩, except_bind_eq_ok.mpr ⟨_, hrest, rfl⟩⟩⟩

end

end Expressions

end Typing
end BlockScript
