import BlockScript.Proofs.Agreement.Layers
import BlockScript.Proofs.Typing.Statements

/-!
# Expressions agree with their check

An expression that has a type where the machine stands comes to a value that fits the type,
if it comes to one, and leaves the layers of the machine as they are.
-/

namespace BlockScript
namespace Running

open BlockScript.Computation Typing

variable {d : Discipline} {settings : Settings} {root : Scope}

/-- A computation keeps the layers of the machine and gives a value that fits a type. -/
def Yields (d : Discipline) (settings : Settings) (root : Scope) (layers : List Layer)
    (type : Option StaticType) (c : Running Value) (m : Machine) : Prop :=
  c.Ensures m (fun v m' => Stacked d root layers m'.scopes.toList ∧ d.Fits type v)
    (d.Accepts settings)

/-- Typed expressions yield values of their types. -/
def EvaluationAgrees (d : Discipline) (settings : Settings) (root : Scope)
    (evaluate : Node → Running Value) : Prop :=
  ∀ ⦃node scopes expected found own callers m⦄, typeOf scopes expected node = .ok found →
    node.Every (d.Admits root) → Sees root scopes own →
    Stacked d root (own ++ callers) m.scopes.toList →
    Yields d settings root (own ++ callers) found.type (evaluate node) m

section Steps

variable {layers : List Layer} {type : Option StaticType} {m : Machine}

theorem yields_pure {v : Value} (h : Stacked d root layers m.scopes.toList)
    (hv : d.Fits type v) : Yields d settings root layers type (pure v) m :=
  ensures_pure ⟨h, hv⟩

theorem yields_literalValue {s : Scalar} (hs : s.IsPlain) {type : StaticType}
    (htype : literalType s = .ok type) (h : Stacked d root layers m.scopes.toList) :
    Yields d settings root layers (some type) (literalValue s) m := by
  have hpure : literalValue s = pure (.scalar s) := by
    refine literalValue_eq_pure ?_
    rintro items place rfl
    cases hs
  rw [hpure]
  exact yields_pure h (Discipline.fits_literal hs htype)

theorem ensures_noteValue_agrees {level : Nat} {message : String} {value : Value}
    (h : Stacked d root layers m.scopes.toList) (hvalue : d.Fits type value) :
    (noteValue settings level message value).Ensures m
      (fun _ m' => Stacked d root layers m'.scopes.toList) (d.Accepts settings) :=
  ensures_noteValue (fun _ _ => h) (fun _ he => Discipline.accepts_textOf hvalue he)
    Discipline.accepts_unwritable

theorem ensures_note_agrees {level : Nat} {message : String}
    (h : Stacked d root layers m.scopes.toList) :
    (note settings level message).Ensures m
      (fun _ m' => Stacked d root layers m'.scopes.toList) (d.Accepts settings) :=
  ensures_note (fun _ => h) Discipline.accepts_unwritable

theorem ensures_requireBoolean_agrees {what : String} {value : Value}
    (h : Stacked d root layers m.scopes.toList) (hvalue : d.Fits (some .boolean) value) :
    (requireBoolean what value).Ensures m
      (fun _ m' => Stacked d root layers m'.scopes.toList) (d.Accepts settings) :=
  ensures_requireBoolean (fun _ _ => h) fun hnot => Discipline.accepts_notBoolean hvalue hnot _ _

theorem yields_applyOperator {operator : String} (hand : operator ≠ "&&")
    (hor : operator ≠ "||") {s t type : Option StaticType}
    (htype : binaryType operator s t = .ok type) {a b : Value} (ha : d.Fits s a)
    (hb : d.Fits t b) (h : Stacked d root layers m.scopes.toList) :
    Yields d settings root layers type (applyOperator settings operator a b) m := by
  obtain ⟨hok, herror⟩ : (∀ v, operate settings m.heap operator a b = .ok v → d.Fits type v) ∧
      ∀ e, operate settings m.heap operator a b = .error e → d.Accepts settings e :=
    Discipline.fits_operate hand hor htype ha hb
  exact Ensures.ofState (ensures_lift (fun v hv => ⟨h, hok v hv⟩) herror)

theorem ensures_equalHere_agrees {s t : Option StaticType} {a b : Value} (ha : d.Fits s a)
    (hb : d.Fits t b) (h : Stacked d root layers m.scopes.toList) :
    (equalHere settings a b).Ensures m (fun _ m' => Stacked d root layers m'.scopes.toList)
      (d.Accepts settings) :=
  Ensures.ofState (ensures_lift (fun _ _ => h) fun _ he =>
    Discipline.accepts_valuesEqual ha hb he)

theorem ensures_print_agrees {type : Option StaticType} {value : Value}
    (hvalue : d.Fits type value) (h : Stacked d root layers m.scopes.toList) :
    Yields d settings root layers (some .nil) (print settings [value]) m := by
  refine Ensures.ofState ?_
  have htext : (lift (textOf settings m.heap value) : Running String).Ensures m
      (fun _ m' => Stacked d root layers m'.scopes.toList) (d.Accepts settings) :=
    ensures_lift (fun _ _ => h) fun _ he => Discipline.accepts_textOf hvalue he
  refine htext.bind ?_
  intro text m₁ h₁
  have hwrite : (writeLine settings text).Ensures m₁
      (fun _ m' => Stacked d root layers m'.scopes.toList) (d.Accepts settings) := by
    unfold writeLine
    split
    · rename_i hstrict
      simp only [Bool.and_eq_true] at hstrict
      exact ensures_fail (Discipline.accepts_unwritable hstrict.1)
    · exact ensures_change h₁
  refine hwrite.bind ?_
  intro _ m₂ h₂
  exact yields_pure h₂ Discipline.fits_nil

end Steps

section Names

variable {scopes : Chain} {own callers : List Layer} {m : Machine} {name : Name}

theorem switchName_of_spelled (h : Node.IsSpelled name) : name.same switchName = false := by
  obtain ⟨s, rfl, hs⟩ := h
  cases hsame : (Name.ofText s).same switchName with
  | false => rfl
  | true => exact absurd (Name.same_ofText.mp hsame) hs

theorem isBindable_of_spelled (h : Node.IsSpelled name) : name.isBindable = true := by
  obtain ⟨s, rfl, _⟩ := h
  rfl

theorem ensures_bound {α : Type} {binding : Except ScopeFault α} {a : α} {post : α → Machine → Prop}
    {accepted : RunFailure → Prop} (hname : name.isBindable = true) (hbinding : binding = .ok a)
    (hpost : post a m) :
    (lift (boundUnder name binding) : Running α).Ensures m post accepted := by
  rw [boundUnder_eq_ok.mpr ⟨hname, hbinding⟩]
  exact ensures_pure hpost

/-- A variable that the text finds is found, and of the same kind. -/
theorem ensures_lookupVariable_agrees {v : Variable} (hsees : Sees root scopes own)
    (h : Stacked d root (own ++ callers) m.scopes.toList) (hname : Node.IsSpelled name)
    (hv : scopes.lookupVariable name = .ok v) :
    (lookupVariable name).Ensures m
      (fun w m' => m' = m ∧ (v.isMutable = true → w.isMutable = true) ∧ d.Fits v.type w.value)
      (d.Accepts settings) := by
  obtain ⟨w, hw, hmutable, hfits⟩ :=
    hsees.lookupVariable h (switchName_of_spelled hname) hv
  exact Ensures.ofState (ensures_bound (isBindable_of_spelled hname) hw ⟨rfl, hmutable, hfits⟩)

theorem ensures_lookupFunction_agrees {arity : Nat} {f : Function} (hsees : Sees root scopes own)
    (h : Stacked d root (own ++ callers) m.scopes.toList) (hname : name.isBindable = true)
    (hf : scopes.lookupFunction name arity = .ok f) :
    (lookupFunction name arity).Ensures m (fun g m' => m' = m ∧ f.Agrees g)
      (d.Accepts settings) := by
  obtain ⟨g, hg, hagrees⟩ := hsees.lookupFunction h hf
  exact Ensures.ofState (ensures_bound hname hg ⟨rfl, hagrees⟩)

end Names

section Parts

variable {scopes : Chain} {own callers : List Layer} {m : Machine}
  {evaluate : Node → Running Value}

theorem binaryType_logical {operator : String} {l r type : Option StaticType}
    (h : binaryType operator l r = .ok type) (hlogical : operator = "&&" ∨ operator = "||") :
    l = some .boolean ∧ r = some .boolean ∧ type = some .boolean := by
  unfold binaryType at h
  rw [if_pos hlogical] at h
  split at h
  · rename_i hboth
    cases h
    exact ⟨hboth.1, hboth.2, rfl⟩
  · exact absurd h rejectNamingBoth_ne_ok

theorem yields_secondTruth (heval : EvaluationAgrees d settings root evaluate)
    (operator : String) {right : Node} {found : Typed}
    (hright : typeOf scopes none right = .ok found) (htype : found.type = some .boolean)
    (hnode : right.Every (d.Admits root)) (hsees : Sees root scopes own)
    (h : Stacked d root (own ++ callers) m.scopes.toList) :
    Yields d settings root (own ++ callers) (some .boolean)
      (secondTruth evaluate operator right) m := by
  refine (heval hright hnode hsees h).bind ?_
  rintro value m₁ ⟨h₁, hvalue⟩
  rw [htype] at hvalue
  refine (ensures_requireBoolean_agrees h₁ hvalue).bind ?_
  intro truth m₂ h₂
  exact yields_pure h₂ (Discipline.fits_boolean truth)

theorem yields_evaluateBinary (heval : EvaluationAgrees d settings root evaluate)
    {operator : String} {left right : Node} {l r : Typed} {type : Option StaticType}
    (hl : typeOf scopes none left = .ok l) (hr : typeOf scopes none right = .ok r)
    (htype : binaryType operator l.type r.type = .ok type)
    (hleft : left.Every (d.Admits root)) (hright : right.Every (d.Admits root))
    (hsees : Sees root scopes own) (h : Stacked d root (own ++ callers) m.scopes.toList) :
    Yields d settings root (own ++ callers) type
      (evaluateBinary settings evaluate operator left right) m := by
  refine (heval hl hleft hsees h).bind ?_
  rintro a m₁ ⟨h₁, ha⟩
  by_cases hand : operator = "&&"
  · obtain ⟨hltype, hrtype, rfl⟩ := binaryType_logical htype (Or.inl hand)
    rw [hltype] at ha
    rw [if_pos hand]
    refine (ensures_requireBoolean_agrees h₁ ha).bind ?_
    intro truth m₂ h₂
    cases truth with
    | true => exact yields_secondTruth heval operator hr hrtype hright hsees h₂
    | false => exact yields_pure h₂ (Discipline.fits_boolean false)
  rw [if_neg hand]
  by_cases hor : operator = "||"
  · obtain ⟨hltype, hrtype, rfl⟩ := binaryType_logical htype (Or.inr hor)
    rw [hltype] at ha
    rw [if_pos hor]
    refine (ensures_requireBoolean_agrees h₁ ha).bind ?_
    intro truth m₂ h₂
    cases truth with
    | true => exact yields_pure h₂ (Discipline.fits_boolean true)
    | false => exact yields_secondTruth heval operator hr hrtype hright hsees h₂
  rw [if_neg hor]
  refine (heval hr hright hsees h₁).bind ?_
  rintro b m₂ ⟨h₂, hb⟩
  exact yields_applyOperator hand hor htype ha hb h₂

/-- The place of an item, for which no type is demanded. -/
theorem ensures_locate_agrees (heval : EvaluationAgrees .names settings root evaluate)
    (name : Name) (value : Value) {offset : Node} {part : Typed}
    (hoffset : typeOf scopes none offset = .ok part)
    (hnode : offset.Every (Discipline.names.Admits root)) (hsees : Sees root scopes own)
    (h : Stacked .names root (own ++ callers) m.scopes.toList) :
    (locate evaluate name value offset).Ensures m
      (fun _ m' => Stacked .names root (own ++ callers) m'.scopes.toList)
      (Discipline.names.Accepts settings) := by
  have hlist : (requireList name value).Ensures m
      (fun _ m' => Stacked .names root (own ++ callers) m'.scopes.toList)
      (Discipline.names.Accepts settings) :=
    ensures_requireList (fun _ _ => h) fun _ => id
  refine hlist.bind ?_
  intro reference m₁ h₁
  refine (heval hoffset hnode hsees h₁).bind ?_
  rintro index m₂ ⟨h₂, _⟩
  have hindex : (requireIndex reference index).Ensures m₂
      (fun _ m' => Stacked .names root (own ++ callers) m'.scopes.toList)
      (Discipline.names.Accepts settings) :=
    ensures_requireIndex (fun _ _ => h₂) (fun _ => id) id id
  refine hindex.bind ?_
  intro i m₃ h₃
  exact ensures_pure h₃

theorem yields_evaluateAccess (heval : EvaluationAgrees d settings root evaluate)
    {name : Name} {offset : Node} {found : Typed} {expected : Option StaticType}
    (hfound : typeOf scopes expected (.access name offset) = .ok found)
    (hnode : (Node.access name offset).Every (d.Admits root)) (hsees : Sees root scopes own)
    (h : Stacked d root (own ++ callers) m.scopes.toList) :
    Yields d settings root (own ++ callers) found.type (evaluateAccess evaluate name offset) m := by
  obtain ⟨others, v, hothers, _, hv, rfl⟩ := typeOf_access hfound
  have hname : Node.IsSpelled name := hnode.1.inner
  refine (ensures_lookupVariable_agrees hsees h hname hv).bind ?_
  rintro w m₁ ⟨rfl, _, hfits⟩
  split
  · exact yields_pure h hfits
  · rename_i habsent
    cases d with
    | types => exact absurd hnode.1.precise habsent
    | names =>
        rcases typeOf_offset hothers with ⟨hoffset, _⟩ | ⟨part, hpart, _⟩
        · exact absurd hoffset habsent
        · refine (ensures_locate_agrees heval name w.value hpart hnode.2 hsees h).bind ?_
          rintro ⟨reference, i⟩ m₂ h₂
          exact ⟨h₂, trivial⟩

/-- The arguments of a call come to values that fit types which the parameters accept. -/
theorem ensures_arguments_agrees (heval : EvaluationAgrees d settings root evaluate)
    {function : String} {arguments : List Node} {types : List StaticType}
    {others : List Annotation}
    (htypes : typeOfArguments scopes function arguments types = .ok others)
    (hlength : arguments.length = types.length)
    (hnodes : Node.EveryOf (d.Admits root) arguments) (hsees : Sees root scopes own)
    (h : Stacked d root (own ++ callers) m.scopes.toList) :
    (evaluateAll evaluate arguments).Ensures m
      (fun values m' => Stacked d root (own ++ callers) m'.scopes.toList ∧
        List.Forall₂ (fun (type : StaticType) value => ∃ source,
          StaticType.accepts (some type) source = true ∧ d.Fits source value) types values)
      (d.Accepts settings) := by
  induction arguments generalizing types others m with
  | nil =>
      cases types with
      | nil => exact ensures_pure ⟨h, .nil⟩
      | cons type types => cases hlength
  | cons argument arguments ih =>
      cases types with
      | nil => cases hlength
      | cons type types =>
          obtain ⟨part, rest, hpart, haccepts, hrest, _⟩ := typeOf_arguments htypes
          refine (heval hpart hnodes.1 hsees h).bind ?_
          rintro value m₁ ⟨h₁, hvalue⟩
          refine (ih hrest (Nat.succ.inj hlength) hnodes.2 h₁).bind ?_
          rintro values m₂ ⟨h₂, hvalues⟩
          exact ensures_pure ⟨h₂, .cons ⟨part.type, haccepts, hvalue⟩ hvalues⟩

theorem ensures_elements_agrees (heval : EvaluationAgrees d settings root evaluate)
    {elements : List Node} {listType : Option StaticType} {found : Typed}
    (hfound : typeOfElements scopes listType elements = .ok found)
    (hnodes : Node.EveryOf (d.Admits root) elements) (hsees : Sees root scopes own)
    (h : Stacked d root (own ++ callers) m.scopes.toList) :
    (evaluateAll evaluate elements).Ensures m
      (fun _ m' => Stacked d root (own ++ callers) m'.scopes.toList) (d.Accepts settings) := by
  induction elements generalizing listType found m with
  | nil => exact ensures_pure h
  | cons element elements ih =>
      obtain ⟨part, type, rest, hpart, hrest, _⟩ := typeOf_elements hfound
      refine (heval hpart hnodes.1 hsees h).bind ?_
      rintro value m₁ ⟨h₁, _⟩
      refine (ih hrest hnodes.2 h₁).bind ?_
      intro values m₂ h₂
      exact ensures_pure h₂

end Parts

end Running
end BlockScript
