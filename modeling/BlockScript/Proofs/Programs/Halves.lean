import BlockScript.Program
import BlockScript.Proofs.Grammar.Literals
import BlockScript.Proofs.Running.Holdings
import BlockScript.Proofs.Typing.Traces
import BlockScript.Proofs.Value.Walks

/-!
# Texts without halves of surrogate pairs

A text without halves has tokens without halves, and so no name and no literal of its tree has one.
The check and the run of the tree put their messages and lines together from these, and from
numerals and fixed words.  All of them can therefore be written, and neither the check nor the run
breaks off at one, even where writing is strict.
-/

namespace BlockScript

/-- A scalar of a program without halves: its text can be written. -/
def Scalar.IsWhole : Scalar → Prop
  | .string text => Text.isWritable text = true
  | .character (.string text) => Text.isWritable text = true
  | .character _ | .foreign _ _ => False
  | .nil | .boolean _ | .integer _ | .decimal _ => True

namespace Grammar

theorem isHalf_of_escape {letter c : Char} (h : (letter, c) ∈ Derivation.escapes) :
    Text.isHalf c = false := by
  have hall : ∀ e ∈ Derivation.escapes, Text.isHalf e.2 = false := by decide
  exact hall _ h

/-- Escapes bring no halves in. -/
theorem isHalf_of_unescaped {cs ds : List Char} (h : Derivation.Unescaped cs ds)
    (hcs : ∀ c ∈ cs, Text.isHalf c = false) : ∀ d ∈ ds, Text.isHalf d = false := by
  induction h with
  | nil => exact hcs
  | escape hescape _ ih =>
      refine List.forall_mem_cons.mpr ⟨isHalf_of_escape hescape, ih fun c hc => ?_⟩
      exact hcs c (List.mem_cons_of_mem _ (List.mem_cons_of_mem _ hc))
  | plain _ _ ih =>
      obtain ⟨hc, hcs⟩ := List.forall_mem_cons.mp hcs
      exact List.forall_mem_cons.mpr ⟨hc, ih hcs⟩

/-- The content of a quoted text without halves has none. -/
theorem isWritable_of_unquoted {text content : String} (h : Derivation.Unquoted text content)
    (htext : Text.isWritable text = true) : Text.isWritable content = true := by
  obtain ⟨hunescaped⟩ := h
  rw [Text.isWritable_iff] at htext ⊢
  rw [String.toList_ofList]
  refine isHalf_of_unescaped hunescaped fun c hc => htext c ?_
  exact List.mem_of_mem_tail (List.mem_of_mem_dropLast hc)

theorem denotes_isWhole :
    Derivation.Denotes (fun t => Text.isWritable t.text = true) Scalar.IsWhole where
  nil := trivial
  boolean _ := trivial
  token h hts := by
    cases h with
    | integer | decimal => trivial
    | character _ hunquoted | string _ hunquoted =>
        exact isWritable_of_unquoted hunquoted (hts _ List.mem_cons_self)
  text ht := ht

theorem isWritable_of_isCut {source : List Char} (hsource : ∀ c ∈ source, Text.isHalf c = false)
    {t : Token} (h : t.IsCut source) : Text.isWritable t.text = true := by
  refine Text.isWritable_iff.mpr fun c hc => hsource c (List.mem_of_mem_drop (i := t.start) ?_)
  rw [h.drop_start]
  exact List.mem_append_left _ hc

/-- The literals and names of a text without halves have none. -/
theorem whole_of_parse {text : String} {tree : Node} (h : parseProgram text = .ok tree)
    (htext : Text.isWritable text = true) : tree.Every (Node.Only Scalar.IsWhole) := by
  unfold parseProgram at h
  split at h
  · cases h
  · rename_i tokens hscan
    split at h
    · cases h
    · rename_i hparse
      cases h
      have htokens : ∀ t ∈ tokens, Text.isWritable t.text = true := fun t ht =>
        isWritable_of_isCut (Text.isWritable_iff.mp htext) ((Tiled.of_scan hscan).isCut t ht)
      exact (derives_of_parse hparse fun _ _ => trivial).only denotes_isWhole htokens

end Grammar

namespace Running

variable {settings : Settings} {heap : Heap}

theorem isWritable_scalarText {s : Scalar} (hs : s.IsWhole) {text : String}
    (h : s.text = .ok text) : Text.isWritable text = true := by
  have hascii : ∀ {t : String}, Text.IsAscii t → Text.isWritable t = true :=
    Text.composes_isWritable.ascii
  unfold Scalar.text at h
  split at h
  · cases h
    exact hascii (by decide)
  · rename_i b
    cases h
    cases b <;> exact hascii (by decide)
  · split at h
    · rename_i htext
      cases h
      exact hascii (Text.isAscii_intText htext)
    · cases h
  · cases h
    exact hascii (Decimal.isAscii_toText _)
  · cases h
    exact hs
  · cases h
  · cases h
    exact hs
  · exact hs.elim

/-- Values without halves have a text that can be written. -/
theorem isWritable_text (hheap : heap.Every (Value.Only Scalar.IsWhole)) (bound : Nat)
    {value : Value} (hvalue : value.Only Scalar.IsWhole) {text : String}
    (h : heap.text bound value = .ok text) : Text.isWritable text = true := by
  induction bound generalizing value text with
  | zero =>
      cases value with
      | scalar s => exact isWritable_scalarText hvalue h
      | list r => cases h
  | succ bound ih =>
      cases value with
      | scalar s => exact isWritable_scalarText hvalue h
      | list r =>
          unfold Heap.text at h
          cases hparts : (heap.items r).mapM (heap.text bound) with
          | error e =>
              rw [hparts] at h
              cases h
          | ok parts =>
              rw [hparts] at h
              cases h
              have hcomposes := Text.composes_isWritable
              have hwritable : ∀ part ∈ parts, Text.isWritable part = true := by
                intro part hpart
                obtain ⟨v, hv, htext⟩ := Heap.exists_of_mem_mapM hparts part hpart
                exact ih (hheap r v hv) htext
              have hrow := hcomposes.intercalate (hcomposes.ascii (by decide : Text.IsAscii ", "))
                hwritable
              exact hcomposes.append (hcomposes.append (hcomposes.ascii (by decide)) hrow)
                (hcomposes.ascii (by decide))

theorem isWritable_textOf (hheap : heap.Every (Value.Only Scalar.IsWhole)) {value : Value}
    (hvalue : value.Only Scalar.IsWhole) {text : String}
    (h : textOf settings heap value = .ok text) : Text.isWritable text = true :=
  isWritable_text hheap _ hvalue (textOf_eq_ok.mp h)

/-- No step of a run brings halves in. -/
theorem preserved_isWhole (settings : Settings) : Preserved settings Scalar.IsWhole where
  nil := trivial
  boolean _ := trivial
  tree _ _ h := h.elim
  operate heap operator a b v hheap ha hb h := by
    have happlied := applied_operate settings heap operator a b
    rw [h] at happlied
    generalize hr : (Except.ok v : Except RunFailure Value) = r at happlied
    cases happlied with
    | raised | unequated | undefinedOrder | noOrder | leftText | rightText => cases hr
    | truth | integer =>
        cases hr
        trivial
    | joined hs ht =>
        cases hr
        exact Text.composes_isWritable.append (isWritable_textOf hheap ha hs)
          (isWritable_textOf hheap hb ht)
    | @decimal c d =>
        obtain ⟨e, rfl⟩ := decimalArithmetic_ok hr.symm
        trivial
  text _ _ _ hheap hvalue h := isWritable_textOf hheap hvalue h
  composes := Text.composes_isWritable

/-- The run of a tree without halves never breaks off at a line or a message without a written
form. -/
theorem runProgram_ne_unwritable {tree : Node} (htree : tree.Every (Node.Only Scalar.IsWhole))
    (settings : Settings) (steps : Nat) (trace : Trace) {e : RunFailure} {m : Machine}
    (h : runProgram settings steps tree (.start [] .empty trace) = (.error e, m)) :
    e ≠ .unwritable := by
  have hrun := twinned_runProgram (harmless_eq settings _) (preserved_isWhole settings) steps htree
  have hstart : (Machine.start [] .empty trace).Only Scalar.IsWhole :=
    .start (List.forall_mem_nil _) Heap.every_empty trace
  exact hrun.ne_unwritable hstart (fun _ h => h) h

end Running

namespace Program

/-- The check of a tree without halves reports what can be written only. -/
theorem isWritable_checkProgram {tree : Node} (htree : tree.Every (Node.Only Scalar.IsWhole))
    (surroundings : List Scope) {trace : Trace} (htrace : trace.isWritable = true) :
    (checkProgram surroundings trace tree).2.trace.isWritable = true := by
  have hnotes : Typing.KeptByNotes (fun text => Text.isWritable text = true)
      fun t _ => t.isWritable = true := by
    refine ⟨Text.composes_isWritable, ?_⟩
    intro t _ level message hmessage ht
    unfold Trace.note
    split
    · exact Bool.and_eq_true_iff.mpr ⟨hmessage, ht⟩
    · exact ht
  have hnamed : tree.Every (Node.Named fun text => Text.isWritable text = true) :=
    htree.map fun _ h => h.name
  have hstart : Typing.SameBut (fun t _ => t.isWritable = true) (.start surroundings trace)
      (.start surroundings trace) := ⟨⟨rfl, rfl⟩, htrace⟩
  exact (Typing.blind_checkProgram hnotes hnamed hstart).2.trace

/-- A tree without halves is checked strictly as it is checked otherwise. -/
theorem checkTree_of_whole {tree : Node} {settings : Settings}
    (htree : settings.strict = true → tree.Every (Node.Only Scalar.IsWhole))
    (surroundings : List Scope) {trace : Trace} (htrace : trace.isWritable = true) :
    checkTree settings surroundings trace tree = checkProgram surroundings trace tree := by
  unfold checkTree checkProgramStrictly
  split
  · rename_i hstrict
    dsimp only
    rw [if_pos (isWritable_checkProgram (htree hstrict) surroundings htrace)]
  · rfl

/-- A tree without halves never ends at a text that has no written form. -/
theorem runTree_ne_unwritable {tree : Node} (htree : tree.Every (Node.Only Scalar.IsWhole))
    (settings : Settings) (steps : Nat) (trace : Trace) :
    (runTree settings steps (.start [] .empty trace) tree).result ≠
      .error (.run .unwritable) := by
  unfold runTree
  split
  · exact nofun
  · rename_i failure _ hrun
    intro hresult
    cases hresult
    exact Running.runProgram_ne_unwritable htree settings steps _ hrun rfl

/-- **Texts without halves are written.** However strict the settings are, a text without halves
never ends at a text that has no written form, neither in its check nor in its run. -/
theorem runText_ne_unwritable (settings : Settings) (steps level : Nat) {text : String}
    (htext : Text.isWritable text = true) :
    (runText settings steps level text).result ≠ .error (.run .unwritable) ∧
      ∀ tree, Grammar.parseProgram text = .ok tree →
        checkTree settings [] (.start level) tree = checkProgram [] (.start level) tree := by
  refine ⟨?_, fun tree hparse =>
    checkTree_of_whole (fun _ => Grammar.whole_of_parse hparse htext) [] rfl⟩
  unfold runText
  cases hparse : Grammar.parseProgram text with
  | error failure => exact nofun
  | ok tree =>
      dsimp only
      unfold checkAndRun
      split
      · exact runTree_ne_unwritable (Grammar.whole_of_parse hparse htext) settings steps _
      · exact nofun

end Program
end BlockScript
