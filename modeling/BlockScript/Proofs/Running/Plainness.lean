import BlockScript.Proofs.Agreement.Operators
import BlockScript.Proofs.Running.Operations
import BlockScript.Proofs.Running.Rules
import BlockScript.Proofs.Scope.Contents
import BlockScript.Proofs.Tree.Placement
import BlockScript.Proofs.Value.Walks

/-!
# Plain values

The values of a run of a regular program are plain: decimals are finite, characters are
texts, and nothing is foreign.  Operators on plain values give plain values, and where they
fail they fail in a tame way: with an error of the language, or because a number is too long
or out of range, or because a walk through a list has no end.

The contents of the program say which of these can be.  Integers become longer than can be
written by operations on numbers only, decimals leave their range in the same way, and there
is no list without a literal of one.
-/

namespace BlockScript

/-- A failure of a run that a regular program can come to. -/
inductive RunFailure.IsTame (settings : Settings) (has : Contents) : RunFailure → Prop
  | raised (error : RunError) : IsTame settings has (.raised error)
  | endless : has.lists → IsTame settings has .endless
  | numeral : has.arithmetic → IsTame settings has .numeral
  | range {e : RunFailure} : has.arithmetic → has.decimals → e.LeavesRange →
      IsTame settings has e
  | unwritable : settings.strict = true → IsTame settings has .unwritable
  | exhausted : IsTame settings has .exhausted

/-- A scalar that a regular program computes. -/
def Scalar.IsWithin (has : Contents) : Scalar → Prop
  | .integer n => has.arithmetic ∨ Text.intText? n ≠ none
  | .decimal (.finite _) => has.decimals
  | s => s.IsPlain

/-- A value that a regular program computes. -/
def Value.IsPlain (has : Contents) : Value → Prop
  | .scalar s => s.IsWithin has
  | .list _ => has.lists

/-- What a function of a regular program does. -/
def Action.IsPlain (has : Contents) : Action → Prop
  | .constant value => value.IsPlain has
  | .collector => has.lists
  | .declared parameters body =>
      (∀ p ∈ parameters, Node.IsText p) ∧ Node.IsBody body ∧
        Node.EveryOf (Node.IsRegular has) body
  | .printer => True

/-- A function of a regular program.  One that writes its argument takes one. -/
structure Function.IsPlain (has : Contents) (f : Function) : Prop where
  action : f.action.IsPlain has
  printer : f.action = .printer → 0 < f.arity

/-- A scope has plain values and functions of regular programs. -/
structure Scope.IsPlain (has : Contents) (s : Scope) : Prop where
  vars : ∀ v ∈ s.vars, v.value.IsPlain has
  functions : ∀ f ∈ s.functions, f.IsPlain has

/-- A chain has plain values and functions of regular programs. -/
def Chain.IsPlain (has : Contents) (c : Chain) : Prop := ∀ s ∈ c.toList, s.IsPlain has

/-- Lists hold plain values. -/
def Heap.IsPlain (has : Contents) (h : Heap) : Prop := ∀ r, ∀ v ∈ h.items r, v.IsPlain has

/-- A machine has plain values and functions of regular programs. -/
structure Machine.IsPlain (has : Contents) (m : Machine) : Prop where
  scopes : m.scopes.IsPlain has
  heap : m.heap.IsPlain has

variable {has : Contents}

theorem Scalar.IsWithin.isPlain {s : Scalar} (h : s.IsWithin has) : s.IsPlain := by
  cases s with
  | integer n => trivial
  | decimal d =>
      cases d with
      | finite d => trivial
      | _ => exact h
  | _ => exact h

theorem Node.IsRegular.isWithin {s : Scalar} (h : (Node.literal s).IsRegular has) :
    s.IsWithin has := by
  have hplain := h.plain s rfl
  cases s with
  | integer n => exact Or.inr (h.placed n rfl)
  | decimal d =>
      cases d with
      | finite d => exact h.within.decimals trivial
      | _ => exact hplain
  | _ => exact hplain

theorem RunFailure.IsTolerated.isTame {settings : Settings} {e : RunFailure}
    (h : e.IsTolerated settings) (harithmetic : has.arithmetic) (hdecimals : has.decimals) :
    e.IsTame settings has := by
  cases h with
  | divisionByZero | negativeExponent | orderOfNils | stackOverflow => exact .raised _
  | numeral => exact .numeral harithmetic
  | range h => exact .range harithmetic hdecimals h
  | unwritable h => exact .unwritable h
  | exhausted => exact .exhausted

section Scopes

theorem Scope.isPlain_iff_every {s : Scope} :
    s.IsPlain has ↔ s.Every (Value.IsPlain has) (Function.IsPlain has) :=
  ⟨fun h => ⟨h.vars, h.functions⟩, fun h => ⟨h.vars, h.functions⟩⟩

theorem Chain.isPlain_iff_every {c : Chain} :
    c.IsPlain has ↔ c.Every (Value.IsPlain has) (Function.IsPlain has) :=
  forall₂_congr fun _ _ => Scope.isPlain_iff_every

namespace Chain.IsPlain

variable {c c' : Chain}

theorem push (h : c.IsPlain has) : c.push.IsPlain has :=
  isPlain_iff_every.mpr (isPlain_iff_every.mp h).push

theorem pop (h : c.IsPlain has) : c.pop.IsPlain has :=
  isPlain_iff_every.mpr (isPlain_iff_every.mp h).pop

theorem lookupVariable (h : c.IsPlain has) {name : Name} {v : Variable}
    (hv : c.lookupVariable name = .ok v) : v.value.IsPlain has :=
  (isPlain_iff_every.mp h).lookupVariable hv

theorem lookupFunction (h : c.IsPlain has) {name : Name} {arity : Nat} {f : Function}
    (hf : c.lookupFunction name arity = .ok f) : f.IsPlain has :=
  (isPlain_iff_every.mp h).lookupFunction hf

theorem defineVariable (h : c.IsPlain has) {v : Variable} (hv : v.value.IsPlain has)
    (hc' : c.defineVariable v = .ok c') : c'.IsPlain has :=
  isPlain_iff_every.mpr ((isPlain_iff_every.mp h).defineVariable hv hc')

theorem defineFunction (h : c.IsPlain has) {f : Function} (hf : f.IsPlain has)
    (hc' : c.defineFunction f = .ok c') : c'.IsPlain has :=
  isPlain_iff_every.mpr ((isPlain_iff_every.mp h).defineFunction hf hc')

theorem setVariable (h : c.IsPlain has) (name : Name) {value : Value}
    (hvalue : value.IsPlain has) : (c.setVariable name value).IsPlain has :=
  isPlain_iff_every.mpr ((isPlain_iff_every.mp h).setVariable name hvalue)

end Chain.IsPlain

theorem Heap.IsPlain.getD {h : Heap} (hh : h.IsPlain has) (reference index : Nat) :
    ((h.items reference).getD index .nil).IsPlain has :=
  Heap.Every.getD hh trivial reference index

theorem Heap.IsPlain.allocate {h : Heap} (hh : h.IsPlain has) {items : List Value}
    (hitems : ∀ v ∈ items, v.IsPlain has) : (h.allocate items).2.IsPlain has :=
  Heap.Every.allocate hh hitems

theorem Heap.IsPlain.store {h : Heap} (hh : h.IsPlain has) (reference index : Nat)
    {value : Value} (hvalue : value.IsPlain has) :
    (h.store reference index value).IsPlain has :=
  Heap.Every.store hh reference index hvalue

namespace Machine.IsPlain

variable {m : Machine}

/-- A program starts with a plain machine where its surroundings are plain. -/
theorem start {surroundings : List Scope} {heap : Heap} (hscopes : ∀ s ∈ surroundings,
    s.IsPlain has) (hheap : heap.IsPlain has) (trace : Trace) :
    (Machine.start surroundings heap trace).IsPlain has := by
  have hroot : (Chain.root surroundings).Every (Value.IsPlain has) (Function.IsPlain has) :=
    .root ⟨trivial, fun _ => Nat.one_pos⟩ fun s hs => Scope.isPlain_iff_every.mp (hscopes s hs)
  exact ⟨Chain.isPlain_iff_every.mpr hroot, hheap⟩

theorem enter (h : m.IsPlain has) : m.enter.IsPlain has := ⟨h.scopes.push, h.heap⟩

theorem leave (h : m.IsPlain has) : m.leave.IsPlain has := ⟨h.scopes.pop, h.heap⟩

end Machine.IsPlain

theorem Heap.isPlain_empty : Heap.empty.IsPlain has := Heap.every_empty

end Scopes

namespace Running

variable {settings : Settings} {heap : Heap}

section Walks

theorem scalarText_fault {s : Scalar} (hs : s.IsWithin has) {e : TextFault}
    (h : s.text = .error e) : has.arithmetic ∧ e = .numeral := by
  unfold Scalar.text at h
  split at h
  · cases h
  · cases h
  · rename_i n
    have hwritten : has.arithmetic ∨ Text.intText? n ≠ none := hs
    split at h
    · cases h
    · rename_i hnone
      cases h
      exact ⟨hwritten.resolve_right (absurd hnone), rfl⟩
  · cases h
  · cases h
  · rename_i c hc
    cases c with
    | string text => exact (hc text rfl).elim
    | _ => exact hs.elim
  · cases h
  · exact hs.elim

/-- A plain value has a text unless an integer in it is too long or a list has no end. -/
theorem text_fault (hheap : heap.IsPlain has) (bound : Nat) {value : Value}
    (hvalue : value.IsPlain has) {e : TextFault} (h : heap.text bound value = .error e) :
    (has.arithmetic ∧ e = .numeral) ∨ (has.lists ∧ e = .endless) := by
  induction bound generalizing value with
  | zero =>
      cases value with
      | scalar s => exact Or.inl (scalarText_fault hvalue h)
      | list r =>
          cases h
          exact Or.inr ⟨hvalue, rfl⟩
  | succ bound ih =>
      cases value with
      | scalar s => exact Or.inl (scalarText_fault hvalue h)
      | list r =>
          unfold Heap.text at h
          cases hparts : (heap.items r).mapM (heap.text bound) with
          | error e' =>
              rw [hparts] at h
              cases h
              obtain ⟨v, hv, hfault⟩ := Heap.exists_error_of_mapM hparts
              exact ih (hheap r v hv) hfault
          | ok parts =>
              rw [hparts] at h
              cases h

theorem tame_textOf (hheap : heap.IsPlain has) {value : Value} (hvalue : value.IsPlain has)
    {e : RunFailure} (h : textOf settings heap value = .error e) : e.IsTame settings has := by
  unfold textOf at h
  cases htext : heap.text settings.nesting value with
  | ok text =>
      rw [htext] at h
      cases h
  | error fault =>
      rw [htext] at h
      rcases text_fault hheap _ hvalue htext with ⟨harithmetic, rfl⟩ | ⟨hlists, rfl⟩
      · cases h
        exact .numeral harithmetic
      · cases h
        exact .endless hlists

/-- Plain values are compared unless a list has no end. -/
theorem equal_fault (hheap : heap.IsPlain has) (bound : Nat) {a b : Value}
    (ha : a.IsPlain has) (hb : b.IsPlain has) {e : EqualityFault}
    (h : heap.equal bound a b = .error e) : has.lists ∧ e = .endless := by
  have hscalars : ∀ bound (s t : Scalar), s.IsWithin has → t.IsWithin has →
      heap.equal bound (.scalar s) (.scalar t) ≠ .error e := by
    intro bound s t hs ht h
    unfold Heap.equal at h
    rw [refuse_eq_false hs.isPlain ht.isPlain] at h
    cases h
  induction bound generalizing a b with
  | zero =>
      cases a with
      | scalar s =>
          cases b with
          | scalar t => exact absurd h (hscalars 0 s t ha hb)
          | list r => cases h
      | list r =>
          cases b with
          | scalar t => cases h
          | list r' =>
              cases h
              exact ⟨ha, rfl⟩
  | succ bound ih =>
      cases a with
      | scalar s =>
          cases b with
          | scalar t => exact absurd h (hscalars _ s t ha hb)
          | list r => cases h
      | list r =>
          cases b with
          | scalar t => cases h
          | list r' =>
              unfold Heap.equal at h
              dsimp only at h
              split at h
              · obtain ⟨v, hv, w, hw, hfault⟩ := Heap.exists_error_of_allEqual h
                exact ih (hheap r v hv) (hheap r' w hw) hfault
              · cases h

theorem tame_valuesEqual (hheap : heap.IsPlain has) {a b : Value} (ha : a.IsPlain has)
    (hb : b.IsPlain has) {e : RunFailure} (h : valuesEqual settings heap a b = .error e) :
    e.IsTame settings has := by
  unfold valuesEqual at h
  cases hequal : heap.equal settings.nesting a b with
  | ok answer =>
      rw [hequal] at h
      cases h
  | error fault =>
      obtain ⟨hlists, rfl⟩ := equal_fault hheap _ ha hb hequal
      rw [hequal] at h
      cases h
      exact .endless hlists

end Walks

section Operators

/-- A result is plain, or its failure is tame. -/
def GivesPlain (settings : Settings) (has : Contents) (r : Except RunFailure Value) : Prop :=
  match r with
  | .ok v => v.IsPlain has
  | .error e => e.IsTame settings has

variable {a b : Value}

theorem givesPlain_of_suits {r : Except RunFailure Value} (harithmetic : has.arithmetic)
    (hdecimals : has.decimals) (h : Typing.Suits settings r (some .decimal)) :
    GivesPlain settings has r := by
  cases r with
  | ok v =>
      obtain ⟨s, rfl, hs, htype⟩ := h.1 v rfl
      cases s with
      | decimal d =>
          cases d with
          | finite d => exact hdecimals
          | _ => exact hs
      | _ => cases htype
  | error e => exact (h.2 e rfl).isTame harithmetic hdecimals

theorem givesPlain_decimalArithmetic (operator : String) (harithmetic : has.arithmetic)
    {c d : Decimal} (hc : Scalar.IsWithin has (.decimal c)) (hd : Scalar.IsWithin has (.decimal d)) :
    GivesPlain settings has (decimalArithmetic operator c d) := by
  cases c with
  | finite c =>
      cases d with
      | finite d => exact givesPlain_of_suits harithmetic hc (suits_decimalArithmetic operator c d)
      | _ => exact hd.elim
  | _ => exact hc.elim

/-- Plain scalars that are compared have an order. -/
theorem order_ne_error {s t : Scalar} (hs : s.IsWithin has) (ht : t.IsWithin has)
    (hcomparable : s.comparable t = true) (fault : OrderFault) : s.order t ≠ .error fault := by
  obtain ⟨order, horder⟩ := order_of_comparable hs.isPlain ht.isPlain hcomparable
  rw [horder]
  exact nofun

/-- Operators on plain values give plain values, or fail in a tame way. -/
theorem givesPlain_operate (hheap : heap.IsPlain has) {operator : String}
    (harithmetic : operator ∈ Node.arithmeticOperators → has.arithmetic)
    (ha : a.IsPlain has) (hb : b.IsPlain has) :
    GivesPlain settings has (operate settings heap operator a b) := by
  have happlied := applied_operate settings heap operator a b
  generalize operate settings heap operator a b = r at happlied ⊢
  cases happlied with
  | raised _ => exact .raised _
  | truth | joined => trivial
  | unequated hequal => exact tame_valuesEqual hheap ha hb hequal
  | undefinedOrder hs ht hcomparable horder | noOrder hs ht hcomparable horder =>
      subst hs ht
      exact absurd horder (order_ne_error ha hb hcomparable _)
  | leftText htext => exact tame_textOf hheap ha htext
  | rightText htext => exact tame_textOf hheap hb htext
  | integer _ hoperator => exact Or.inl (harithmetic hoperator)
  | decimal hoperator hc hd =>
      subst hc hd
      exact givesPlain_decimalArithmetic operator (harithmetic hoperator) ha hb

end Operators

end Running
end BlockScript
