import BlockScript.Proofs.Running.Heaps
import BlockScript.Proofs.Running.Operations
import BlockScript.Proofs.Running.Silence

/-!
# No list of a running program contains itself

At every point that a run reaches, and behind every point that does not fail, the heap is
acyclic, and so all texts and comparisons of its values come to an end.  An assignment to
an item that would close a cycle fails, since the message about it renders the stored
value, and the whole run fails with it.
-/

namespace BlockScript

namespace Machine

/-- Texts and comparisons of values go no deeper than there are lists, so no operator that
makes them goes on without end, and no line that is printed does. -/
structure Walkable (m : Machine) : Prop where
  text : ∀ v, m.heap.Knows v → ∀ settings : Settings, m.heap.size ≤ settings.nesting →
    Running.textOf settings m.heap v ≠ .error .endless
  equal : ∀ a b, m.heap.Knows a → ∀ settings : Settings, m.heap.size ≤ settings.nesting →
    Running.valuesEqual settings m.heap a b ≠ .error .endless
  operate : ∀ a b, m.heap.Knows a → m.heap.Knows b → ∀ settings : Settings,
    m.heap.size ≤ settings.nesting → ∀ operator,
      Running.operate settings m.heap operator a b ≠ .error .endless
  print : ∀ v, m.heap.Knows v → ∀ settings : Settings, m.heap.size ≤ settings.nesting →
    ∀ m', Running.print settings [v] m ≠ (.error .endless, m')

end Machine

namespace Running

open BlockScript.Computation Machine

section Walks

variable {m : Machine}

theorem textOf_ne_endless (hm : m.Sound) {v : Value} (hv : m.heap.Knows v)
    {settings : Settings} (hnesting : m.heap.size ≤ settings.nesting) :
    textOf settings m.heap v ≠ .error .endless := by
  have hwalk := Heap.text_ne_endless hm.closed hv (hm.acyclic.grounded v) hnesting
  unfold textOf
  split <;> simp_all

theorem valuesEqual_ne_endless (hm : m.Sound) {a : Value} (b : Value) (ha : m.heap.Knows a)
    {settings : Settings} (hnesting : m.heap.size ≤ settings.nesting) :
    valuesEqual settings m.heap a b ≠ .error .endless := by
  have hwalk : m.heap.equal settings.nesting a b ≠ .error .endless :=
    Heap.equal_ne_endless hm.closed ha (hm.acyclic.grounded a) hnesting
  unfold valuesEqual
  split <;> simp_all

theorem operate_ne_endless (hm : m.Sound) {a b : Value} (ha : m.heap.Knows a)
    (hb : m.heap.Knows b) {settings : Settings} (hnesting : m.heap.size ≤ settings.nesting)
    (operator : String) : operate settings m.heap operator a b ≠ .error .endless := by
  intro h
  rcases operate_error h with hoperands | htext | htext | hequal
  · exact hoperands.ended rfl
  · exact textOf_ne_endless hm ha hnesting htext
  · exact textOf_ne_endless hm hb hnesting htext
  · exact valuesEqual_ne_endless hm b ha hnesting hequal

theorem print_ne_endless (hm : m.Sound) {v : Value} (hv : m.heap.Knows v)
    {settings : Settings} (hnesting : m.heap.size ≤ settings.nesting) (m' : Machine) :
    print settings [v] m ≠ (.error .endless, m') := by
  have hprint : (print settings [v]).Ensures m (fun _ _ => True) fun e => e ≠ .endless := by
    refine Ensures.ofState ?_
    have htext : (lift (textOf settings m.heap v) : Running String).Ensures m
        (fun _ _ => True) fun e => e ≠ .endless := by
      refine ensures_lift (fun _ _ => trivial) ?_
      rintro e he rfl
      exact textOf_ne_endless hm hv hnesting he
    refine htext.bind ?_
    intro text m₁ _
    have hwrite : (writeLine settings text).Ensures m₁ (fun _ _ => True)
        fun e => e ≠ .endless := by
      unfold writeLine
      split
      · exact ensures_fail (by simp)
      · exact ensures_change trivial
    exact hwrite.bind fun _ _ _ => ensures_pure trivial
  intro h
  exact hprint.of_error h rfl

theorem walkable_of_sound (hm : m.Sound) : m.Walkable where
  text _ hv _ hnesting := textOf_ne_endless hm hv hnesting
  equal _ b ha _ hnesting := valuesEqual_ne_endless hm b ha hnesting
  operate _ _ ha hb _ hnesting operator := operate_ne_endless hm ha hb hnesting operator
  print _ hv _ hnesting m' := print_ne_endless hm hv hnesting m'

end Walks

section Points

variable {δ : Type} {settings : Settings} {k : Companion δ}

theorem sound_evaluate (hreports : settings.reports = true) {steps calls : Nat} {node : Node}
    {v : Value} {m m' : Machine} (hm : m.Sound)
    (h : evaluate settings steps calls node m = (.ok v, m')) : m'.Sound :=
  (((keeps_steps hreports steps).1 calls node m hm).of_ok h).1.sound

theorem sound_executeAll (hreports : settings.reports = true) {steps calls : Nat}
    {nodes : List Node} {ending : Completion} {m m' : Machine} (hm : m.Sound)
    (h : executeAll (execute settings steps calls) nodes m = (.ok ending, m')) : m'.Sound :=
  ((keeps_executeAll ((keeps_steps hreports steps).2 calls) nodes hm).of_ok h).1.sound

theorem follows_evaluateAll (hreports : settings.reports = true) {steps calls : Nat}
    {nodes : List Node} {values : List Value} {m m' : Machine} (hm : m.Sound)
    (h : evaluateAll (evaluate settings steps calls) nodes m = (.ok values, m')) :
    m'.Sound ∧ ∀ v ∈ values, m'.heap.Knows v := by
  obtain ⟨hfollows, hvalues⟩ :=
    (keeps_evaluateAll ((keeps_steps hreports steps).1 calls) nodes hm).of_ok h
  exact ⟨hfollows.sound, hvalues⟩

theorem sound_note {level : Nat} {message : String} {m m' : Machine} (hm : m.Sound)
    (h : note settings level message m = (.ok (), m')) : m.Follows m' :=
  ((keeps_note settings level message hm).of_ok h).1

theorem Passed.sound (hreports : settings.reports = true) {steps calls : Nat} {value : Value}
    {arms : List Node} {m m' : Machine}
    (h : Passed settings (evaluate settings steps calls) value arms m m') (hm : m.Sound) :
    m'.Sound := by
  induction h with
  | nil => exact hm
  | @cons _ node _ _ _ _ _ hmeets _ ih =>
      have hkeeps := keeps_meets settings ((keeps_steps hreports steps).1 calls) value node hm
      exact ih (hkeeps.of_ok hmeets).1.sound

/-- The cases of a switch start from a sound machine. -/
theorem sound_subject (hreports : settings.reports = true) {steps calls : Nat} {c : Node}
    {value : Value} {m m₁ m₂ : Machine} (hm : m.Sound)
    (hc : evaluate settings steps calls c m.enter = (.ok value, m₁))
    (hbind : bindVariable switchName true value m₁ = (.ok (), m₂)) : m₂.Sound := by
  obtain ⟨hfollows, hvalue⟩ := ((keeps_steps hreports steps).1 calls c _ hm.enter).of_ok hc
  exact ((keeps_bindVariable switchName true hfollows.sound hvalue).of_ok hbind).1.sound

/-- Every part of a point with a sound machine has a sound machine. -/
theorem Part.sound (hreports : settings.reports = true) {p q : Point δ}
    (h : Part settings k p q) (hp : p.machine.Sound) : q.machine.Sound := by
  cases h with
  | group | left | initial _ | declared _ | evaluated | returned _ | assigned | condition
  | repeated =>
      exact hp
  | offset _ _ _ => exact hp
  | right hleft _ _ => exact sound_evaluate hreports hp hleft
  | argument hbefore | element hbefore => exact (follows_evaluateAll hreports hp hbefore).1
  | body hvalues _ _ hnote hbind hbefore _ =>
      obtain ⟨hm₁, hknown⟩ := follows_evaluateAll hreports hp hvalues
      have hm₂ := sound_note hm₁ hnote
      have hm₃ := (keeps_bindParameters _ hm₂.sound.enter fun v hv =>
        hm₂.knows (hknown v hv)).of_ok hbind
      exact sound_executeAll hreports hm₃.1.sound hbefore
  | targetOffset hvalue _ _ _ => exact sound_evaluate hreports hp hvalue
  | branch hc hnote _ hbefore =>
      have hm₁ := sound_evaluate hreports hp hc
      exact sound_executeAll hreports (sound_note hm₁ hnote).sound.enter hbefore
  | iteration hc hbefore =>
      exact sound_executeAll hreports (sound_evaluate hreports hp hc).enter hbefore
  | again hc hbody =>
      have hm₁ := sound_evaluate hreports hp hc
      exact ((keeps_body ((keeps_steps hreports _).2 _) _ hm₁).of_ok hbody).1.sound
  | subject => exact hp.enter
  | compared hc hbind hbefore _ _ =>
      exact hbefore.sound hreports (sound_subject hreports hp hc hbind)
  | chosen hc hbind hbefore _ hmeets _ hnote =>
      have hm₃ := hbefore.sound hreports (sound_subject hreports hp hc hbind)
      have hm₄ := (keeps_meets settings ((keeps_steps hreports _).1 _) _ _ hm₃).of_ok hmeets
      exact (sound_note hm₄.1.sound hnote).sound
  | armBody hbefore => exact sound_executeAll hreports hp.enter hbefore

theorem sound_executeEach (hreports : settings.reports = true) {steps : Nat}
    {nodes : List Node} {m m' : Machine} (hm : m.Sound)
    (h : executeEach settings steps nodes m = (.ok (), m')) : m'.Sound :=
  ((keeps_executeEach hreports steps nodes hm).of_ok h).1.sound

theorem Starts.sound (hreports : settings.reports = true) {steps : Nat} {program : Node}
    {m : Machine} {d : δ} {p : Point δ} (h : Starts settings k steps program m d p)
    (hm : m.Sound) : p.machine.Sound := by
  cases h with
  | «global» _ hbefore => exact sound_executeEach hreports hm hbefore
  | function _ hglobals hbefore =>
      exact sound_executeEach hreports (sound_executeEach hreports hm hglobals) hbefore
  | main _ hglobals hfunctions _ _ hnote _ hbind hbefore _ =>
      have hm₂ := sound_executeEach hreports (sound_executeEach hreports hm hglobals) hfunctions
      have hm₃ := (sound_note hm₂ hnote).sound
      have hm₄ := (keeps_bindParameters _ hm₃.enter (by simp)).of_ok hbind
      exact sound_executeAll hreports hm₄.1.sound hbefore

theorem Reached.sound (hreports : settings.reports = true) {steps : Nat} {program : Node}
    {m : Machine} {d : δ} {p : Point δ} (h : Reached settings k steps program m d p)
    (hm : m.Sound) : p.machine.Sound :=
  h.induction (fun _ hstart => hstart.sound hreports hm) fun _ _ hpart hp =>
    hpart.sound hreports hp

theorem Point.Ends.sound (hreports : settings.reports = true) {p : Point δ} {v : Value}
    {m' : Machine} (h : p.Ends settings v m') (hp : p.machine.Sound) :
    m'.Sound ∧ m'.heap.Knows v := by
  cases h with
  | expression h =>
      obtain ⟨hfollows, hv⟩ := ((keeps_steps hreports _).1 _ _ _ hp).of_ok h
      exact ⟨hfollows.sound, hv⟩
  | statement h =>
      obtain ⟨hfollows, hv⟩ := ((keeps_steps hreports _).2 _ _ _ hp).of_ok h
      exact ⟨hfollows.sound, hv⟩

end Points

section Stores

variable {δ : Type} {settings : Settings} {k : Companion δ}

/-- The assignment at a point comes to store a value as an item of a list. -/
inductive Point.Stores (settings : Settings) : Point δ → Nat → Nat → Value → Machine → Prop
  | intro {steps calls : Nat} {name : Name} {offset e : Node} {value : Value} {v : Variable}
      {r i : Nat} {m m₁ m₂ : Machine} {d : δ} :
      evaluate settings steps calls e m = (.ok value, m₁) → offset.isAbsent = false →
      lookupVariable name m₁ = (.ok v, m₁) →
      locate (evaluate settings steps calls) name v.value offset m₁ = (.ok (r, i), m₂) →
      Stores settings ⟨.statement, steps + 1, calls, .assignment (.access name offset) e, m, d⟩
        r i value m₂

/-- What an assignment stores, it announces behind the store. -/
theorem Point.Stores.announces {p : Point δ} {r i : Nat} {value : Value} {m : Machine}
    (h : p.Stores settings r i value m) :
    p.Announces settings value { m with heap := m.heap.store r i value } := by
  cases h with
  | intro hvalue habsent hv hlocate => exact .stored hvalue hv habsent hlocate rfl

/-- A value without a text makes a message fail, and not for want of steps. -/
theorem textOf_fails (settings : Settings) {h : Heap} {v : Value}
    (htext : ∀ bound text, h.text bound v ≠ .ok text) :
    ∃ e, e ≠ .exhausted ∧ textOf settings h v = .error e := by
  cases hv : textOf settings h v with
  | ok text => exact absurd (textOf_eq_ok.mp hv) (htext _ text)
  | error e =>
      refine ⟨e, ?_, rfl⟩
      rcases textOf_eq_error hv with rfl | rfl | rfl <;> exact nofun

theorem Point.Stores.sound (hreports : settings.reports = true) {p : Point δ} {r i : Nat}
    {value : Value} {m : Machine} (h : p.Stores settings r i value m)
    (hp : p.machine.Sound) : m.Sound ∧ m.heap.Knows value := by
  cases h with
  | @intro steps calls name offset _ _ v _ _ _ _ _ _ hvalue habsent hv hlocate =>
      obtain ⟨hfollows, hknown⟩ := ((keeps_steps hreports steps).1 calls _ _ hp).of_ok hvalue
      have hkeeps := keeps_locate ((keeps_steps hreports steps).1 calls) name v.value offset
        hfollows.sound
      have hfollows' := (hkeeps.of_ok hlocate).1
      exact ⟨hfollows'.sound, hfollows'.knows hknown⟩

/-- The message about a statement renders a value. -/
inductive Point.Renders (settings : Settings) : Point δ → Heap → Value → Prop
  | initial {steps calls : Nat} {name typeName : Name} {isMutable : Bool} {e : Node}
      {value : Value} {m m₁ : Machine} {d : δ} :
      evaluateOptional (evaluate settings steps calls) e m = (.ok value, m₁) →
      Renders settings ⟨.statement, steps + 1, calls, .global name typeName isMutable e, m, d⟩
        m₁.heap value
  | declared {steps calls : Nat} {name typeName : Name} {e : Node} {value : Value}
      {m m₁ : Machine} {d : δ} :
      evaluateOptional (evaluate settings steps calls) e m = (.ok value, m₁) →
      Renders settings ⟨.statement, steps + 1, calls, .declaration name typeName e, m, d⟩
        m₁.heap value
  | assigned {steps calls : Nat} {name : Name} {offset e : Node} {value : Value}
      {m m₁ : Machine} {d : δ} :
      evaluate settings steps calls e m = (.ok value, m₁) → offset.isAbsent = true →
      Renders settings ⟨.statement, steps + 1, calls, .assignment (.access name offset) e, m, d⟩
        m₁.heap value
  | stored {p : Point δ} {r i : Nat} {value : Value} {m : Machine} :
      p.Stores settings r i value m → Renders settings p (m.heap.store r i value) value

/-- A rendering that has no end: it belongs to an assignment that closes a cycle. -/
structure Point.Overruns (settings : Settings) (p : Point δ) (h : Heap) (v : Value) :
    Prop where
  stores : ∃ r i m, p.Stores settings r i v m ∧ h = m.heap.store r i v
  cyclic : ¬ h.Acyclic
  text : ∀ bound text, h.text bound v ≠ .ok text

theorem text_ne_endless_of_optional (hreports : settings.reports = true) {steps calls : Nat}
    {e : Node} {v : Value} {m m' : Machine} (hm : m.Sound)
    (h : evaluateOptional (evaluate settings steps calls) e m = (.ok v, m')) (bound : Nat)
    (hbound : m'.heap.size ≤ bound) : m'.heap.text bound v ≠ .error .endless := by
  have hkeeps := keeps_evaluateOptional ((keeps_steps hreports steps).1 calls) e hm
  obtain ⟨hfollows, hv⟩ := hkeeps.of_ok h
  exact Heap.text_ne_endless hfollows.sound.closed hv (hfollows.sound.acyclic.grounded v) hbound

/-- The text of a value comes to an end after an assignment unless that closes a cycle. -/
theorem Point.Stores.text (hreports : settings.reports = true) {p : Point δ} {r i : Nat}
    {v : Value} {m : Machine} (h : p.Stores settings r i v m) (hp : p.machine.Sound) :
    (∀ bound, (m.heap.store r i v).size ≤ bound →
      (m.heap.store r i v).text bound v ≠ .error .endless) ∨
    p.Overruns settings (m.heap.store r i v) v := by
  obtain ⟨hm, hknows⟩ := h.sound hreports hp
  by_cases hacyclic : (m.heap.store r i v).Acyclic
  · refine Or.inl fun bound hbound => ?_
    have hclosed : (m.heap.store r i v).Closed := Heap.closed_store hm.closed hknows
    have hknows' : (m.heap.store r i v).Knows v := by
      refine hknows.mono ?_
      simp
    exact Heap.text_ne_endless hclosed hknows' (hacyclic.grounded v) hbound
  · refine Or.inr ⟨⟨r, i, m, h, rfl⟩, hacyclic, ?_⟩
    intro bound text htext
    exact hacyclic (Heap.acyclic_store hm.acyclic (Heap.grounded_of_text htext))

theorem Point.Renders.text (hreports : settings.reports = true) {p : Point δ} {h : Heap}
    {v : Value} (hrenders : p.Renders settings h v) (hp : p.machine.Sound) :
    (∀ bound, h.size ≤ bound → h.text bound v ≠ .error .endless) ∨
    p.Overruns settings h v := by
  cases hrenders with
  | initial hvalue | declared hvalue =>
      exact Or.inl (text_ne_endless_of_optional hreports hp hvalue)
  | assigned hvalue _ =>
      refine Or.inl fun bound hbound => ?_
      obtain ⟨hfollows, hv⟩ := ((keeps_steps hreports _).1 _ _ _ hp).of_ok hvalue
      exact Heap.text_ne_endless hfollows.sound.closed hv
        (hfollows.sound.acyclic.grounded v) hbound
  | stored hstores => exact hstores.text hreports hp

theorem Point.Overruns.fails (hreports : settings.reports = true) {p : Point δ} {h : Heap}
    {v : Value} (hoverruns : p.Overruns settings h v) :
    ∃ e, e ≠ .exhausted ∧ p.Fails settings e := by
  obtain ⟨r, i, m, hstores, rfl⟩ := hoverruns.stores
  obtain ⟨e, he, htext⟩ := textOf_fails settings hoverruns.text
  exact ⟨e, he, hstores.announces.fails hreports htext⟩

end Stores

/-- At every point that a run reaches no list contains itself, and neither does one where a
point has ended.  Texts and comparisons of values come to an end there, and so does every
message but one about an assignment that closes a cycle, with which the run fails, however many
steps it is given. -/
theorem lists_stay_acyclic {settings : Settings} (hreports : settings.reports = true)
    (steps : Nat) (program : Node) {surroundings : List Scope} {heap : Heap} (trace : Trace)
    (hclosed : heap.Closed) (hacyclic : heap.Acyclic)
    (hscopes : ∀ s ∈ surroundings, s.Within heap) :
    (∀ p, Reached settings .trivial steps program (.start surroundings heap trace) () p →
      p.machine.heap.Acyclic ∧ p.machine.Walkable ∧
      (∀ v m, p.Ends settings v m → m.heap.Acyclic ∧ m.heap.Knows v ∧ m.Walkable) ∧
      ∀ h v, p.Renders settings h v →
        (∀ bound, h.size ≤ bound → h.text bound v ≠ .error .endless) ∨
        p.Overruns settings h v ∧
          ∃ e m, e ≠ .exhausted ∧
            runProgram settings steps program (.start surroundings heap trace) = (.error e, m)) ∧
    ∀ v m, runProgram settings steps program (.start surroundings heap trace) = (.ok v, m) →
      m.heap.Acyclic ∧ m.heap.Knows v ∧ m.Walkable := by
  have hstart : (Machine.start surroundings heap trace).Sound :=
    sound_start hclosed hacyclic hscopes
  refine ⟨?_, ?_⟩
  · intro p hp
    have hsound := hp.sound hreports hstart
    refine ⟨hsound.acyclic, walkable_of_sound hsound, ?_, ?_⟩
    · intro v m hends
      obtain ⟨hm, hv⟩ := hends.sound hreports hsound
      exact ⟨hm.acyclic, hv, walkable_of_sound hm⟩
    · intro h v hrenders
      rcases hrenders.text hreports hsound with hends | hoverruns
      · exact Or.inl hends
      · obtain ⟨e, he, hfails⟩ := hoverruns.fails hreports
        obtain ⟨e', m', hseen, hrun⟩ := hp.shows hfails
        exact Or.inr ⟨hoverruns, e', m', hseen.ne_exhausted he, hrun⟩
  · intro v m hrun
    obtain ⟨hfollows, hv⟩ := (keeps_runProgram hreports steps program hstart).of_ok hrun
    exact ⟨hfollows.sound.acyclic, hv, walkable_of_sound hfollows.sound⟩

/-- A heap of two lists, of which the second one holds the first. -/
def sampleHeap : Heap := ⟨#[[.scalar (.integer 1)], [.list 0]]⟩

/-- Names for the two lists. -/
def sampleScope : Scope :=
  ⟨[boundVariable "a" true (.list 0), boundVariable "b" true (.list 1)], []⟩

/-- The statement that would put the second list into the first. -/
def sampleStore : Node := .assignment (.access "a" (.literal (.integer 0))) (.access "b" .absent)

/-- A program that does so. -/
def sampleProgram : Node := .source [] [.function "main" [] [] .missing [sampleStore]]

theorem lt_of_holds_sampleHeap {r s : Nat} (h : sampleHeap.Holds r s) : s < r := by
  match r with
  | 0 => simp [Heap.Holds, Heap.items, sampleHeap] at h
  | 1 =>
      have hs : s = 0 := by simpa [Heap.Holds, Heap.items, sampleHeap] using h
      omega
  | r + 2 => simp [Heap.Holds, Heap.items, sampleHeap] at h

theorem closed_sampleHeap : sampleHeap.Closed := by
  intro r v hv s hs
  subst hs
  have hlt := lt_of_holds_sampleHeap hv
  have hr : r < sampleHeap.size := by
    by_contra hr
    rw [Heap.items_eq_nil (Nat.not_lt.mp hr)] at hv
    cases hv
  omega

theorem within_sampleScope : sampleScope.Within sampleHeap := by
  refine ⟨?_, by simp [sampleScope]⟩
  intro v hv r hr
  rcases List.mem_cons.mp hv with rfl | hv
  · cases hr
    decide
  · rcases List.mem_singleton.mp hv with rfl
    cases hr
    decide

/-- The run of the sample fails: its assignment would close a cycle. -/
theorem sampleProgram_fails :
    ∃ e m, e ≠ .exhausted ∧
      runProgram .standard 3 sampleProgram (.start [sampleScope] sampleHeap (.start 0)) =
        (.error e, m) := by
  have hacyclic : sampleHeap.Acyclic := Heap.acyclic_of_lt fun _ _ => lt_of_holds_sampleHeap
  have hscopes : ∀ s ∈ [sampleScope], s.Within sampleHeap :=
    List.forall_mem_singleton.mpr within_sampleScope
  have hbody : (declaredFunction "main" [] [sampleStore]).action =
      .declared [] ([] ++ sampleStore :: []) := rfl
  obtain ⟨m, hstarts, m', hstores⟩ : ∃ m : Machine,
      Starts .standard .trivial 3 sampleProgram (.start [sampleScope] sampleHeap (.start 0)) ()
        ⟨.statement, 3, 249, sampleStore, m, ()⟩ ∧
      ∃ m' : Machine, m'.heap = sampleHeap ∧ Point.Stores .standard
        (⟨.statement, 3, 249, sampleStore, m, ()⟩ : Point Unit) 0 0 (.list 1) m' :=
    ⟨_, .main rfl rfl rfl rfl hbody rfl rfl rfl rfl trivial, _, rfl, .intro rfl rfl rfl rfl⟩
  obtain ⟨hheap, hstores⟩ := hstores
  obtain ⟨hreached, _⟩ := lists_stay_acyclic (rfl : Settings.standard.reports = true) 3
    sampleProgram (.start 0) closed_sampleHeap hacyclic hscopes
  obtain ⟨_, _, _, hrenders⟩ := hreached _ ⟨_, hstarts, .refl⟩
  rcases hrenders _ _ (.stored hstores) with hends | ⟨_, hfails⟩
  · rw [hheap] at hends
    exact absurd rfl (hends 2 (by decide))
  · exact hfails

end Running
end BlockScript
