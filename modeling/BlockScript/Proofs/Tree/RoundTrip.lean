import BlockScript.Proofs.Decimal.Reading
import BlockScript.Proofs.Tree.Shape
import BlockScript.Tree.Reading
import BlockScript.Tree.Writing

/-!
# Trees read back as they were written

Writing names the type of every node first, and reading decides by it; so each kind of node
has its own step here, and the steps are put together along the tree.  Nothing is asked of
the shape of a tree.

A tree that was read holds only decimals in range.  So what is written of it reads back, and
writing that again changes nothing.
-/

namespace BlockScript

/-- The decimal of a scalar is in range, if it is one. -/
def Scalar.IsInRange : Scalar → Prop
  | .decimal d => d.IsInRange
  | _ => True

/-- The decimal of a literal is in range, if it is one. -/
def Node.IsInRange : Node → Prop
  | .literal value => value.IsInRange
  | _ => True

namespace Tree

section Writing

variable {α β : Type}

/-- A chain of readings that starts with a success. -/
theorem bind_eq_ok {r : Reading α} {next : α → Reading β} {a : α} {b : β} (hr : r = .ok a)
    (hnext : next a = .ok b) : (r >>= next) = .ok b := by
  rw [hr]
  exact hnext

theorem scalarOf_scalarToJson (place : List Nat) {s : Scalar} (hw : isWritableScalar s = true)
    (hs : s.IsInRange) : scalarOf place (scalarToJson s) = .ok s := by
  cases s with
  | nil | boolean | integer | character | string => rfl
  | decimal d =>
      have hd : decimalOf (.string d.toText) = .ok d := by
        rw [decimalOf, Decimal.ofText?_toText hs]
      exact bind_eq_ok rfl (bind_eq_ok hd rfl)
  | foreign => cases hw

theorem map_names (row : List Name) : (row.map Name.value).map Name.mk = row := by
  rw [List.map_map]
  exact List.map_id row

mutual

theorem nodeAt_toJson (place : List Nat) : ∀ {t : Node}, isWritable t = true →
    t.Every Node.IsInRange → nodeAt place (toJson t) = .ok t
  | .absent, _, _ => rfl
  | .source _ _, hw, ⟨_, hgs, hfs⟩ =>
      have hw := Bool.and_eq_true_iff.mp hw
      bind_eq_ok (nodesAt_rowToJson _ _ hw.1 hgs) (bind_eq_ok (nodesAt_rowToJson _ _ hw.2 hfs) rfl)
  | .global _ _ _ _, hw, ⟨_, hv⟩ =>
      bind_eq_ok rfl (bind_eq_ok rfl (bind_eq_ok rfl (bind_eq_ok (nodeAt_toJson _ hw hv) rfl)))
  | .function name parameters parameterTypes _ _, hw, ⟨_, hb⟩ =>
      bind_eq_ok rfl (bind_eq_ok rfl (bind_eq_ok rfl (bind_eq_ok rfl
        (bind_eq_ok (nodesAt_rowToJson _ _ hw hb) (by rw [map_names, map_names]; rfl)))))
  | .evaluation _, hw, ⟨_, he⟩ => bind_eq_ok (nodeAt_toJson _ hw he) rfl
  | .declaration _ _ _, hw, ⟨_, hv⟩ =>
      bind_eq_ok rfl (bind_eq_ok rfl (bind_eq_ok (nodeAt_toJson _ hw hv) rfl))
  | .assignment _ _, hw, ⟨_, ht, hv⟩ =>
      have hw := Bool.and_eq_true_iff.mp hw
      bind_eq_ok (nodeAt_toJson _ hw.1 ht) (bind_eq_ok (nodeAt_toJson _ hw.2 hv) rfl)
  | .conditional _ _ _, hw, ⟨_, hc, ha, hb⟩ =>
      have hw := Bool.and_eq_true_iff.mp hw
      have hw' := Bool.and_eq_true_iff.mp hw.1
      bind_eq_ok (nodeAt_toJson _ hw'.1 hc) (bind_eq_ok (nodesAt_rowToJson _ _ hw'.2 ha)
        (bind_eq_ok (nodesAt_rowToJson _ _ hw.2 hb) rfl))
  | .arm _ _, hw, ⟨_, hv, hb⟩ =>
      have hw := Bool.and_eq_true_iff.mp hw
      bind_eq_ok (nodeAt_toJson _ hw.1 hv) (bind_eq_ok (nodesAt_rowToJson _ _ hw.2 hb) rfl)
  | .switch _ _, hw, ⟨_, hc, ha⟩ =>
      have hw := Bool.and_eq_true_iff.mp hw
      bind_eq_ok (nodeAt_toJson _ hw.1 hc) (bind_eq_ok (nodesAt_rowToJson _ _ hw.2 ha) rfl)
  | .loop _ _, hw, ⟨_, hc, hb⟩ =>
      have hw := Bool.and_eq_true_iff.mp hw
      bind_eq_ok (nodeAt_toJson _ hw.1 hc) (bind_eq_ok (nodesAt_rowToJson _ _ hw.2 hb) rfl)
  | .returning _, hw, ⟨_, hv⟩ => bind_eq_ok (nodeAt_toJson _ hw hv) rfl
  | .literal _, hw, hs =>
      bind_eq_ok rfl (bind_eq_ok (scalarOf_scalarToJson place hw hs) rfl)
  | .group _, hw, ⟨_, he⟩ => bind_eq_ok (nodeAt_toJson _ hw he) rfl
  | .binary _ _ _, hw, ⟨_, hl, hr⟩ =>
      have hw := Bool.and_eq_true_iff.mp hw
      bind_eq_ok rfl (bind_eq_ok (nodeAt_toJson _ hw.1 hl)
        (bind_eq_ok (nodeAt_toJson _ hw.2 hr) rfl))
  | .access _ _, hw, ⟨_, ho⟩ => bind_eq_ok rfl (bind_eq_ok (nodeAt_toJson _ hw ho) rfl)
  | .call _ _, hw, ⟨_, ha⟩ => bind_eq_ok rfl (bind_eq_ok (nodesAt_rowToJson _ _ hw ha) rfl)
  | .list _, hw, ⟨_, he⟩ => bind_eq_ok (nodesAt_rowToJson _ _ hw he) rfl

theorem nodesAt_rowToJson (place : List Nat) (position : Nat) : ∀ {ts : List Node},
    areWritable ts = true → Node.EveryOf Node.IsInRange ts →
      nodesAt place position (rowToJson ts) = .ok ts
  | [], _, _ => rfl
  | _ :: _, hw, ⟨ht, hts⟩ =>
      have hw := Bool.and_eq_true_iff.mp hw
      bind_eq_ok (nodeAt_toJson _ hw.1 ht) (bind_eq_ok (nodesAt_rowToJson place _ hw.2 hts) rfl)

end

end Writing

/-- Whatever a reading comes to has a property. -/
def Gives {α : Type} (r : Reading α) (P : α → Prop) : Prop := ∀ a, r = .ok a → P a

section Gives

variable {α β : Type} {r : Reading α} {P : α → Prop}

theorem Gives.bind {next : α → Reading β} {Q : β → Prop} (h : Gives r P)
    (hnext : ∀ a, P a → Gives (next a) Q) : Gives (r >>= next) Q := by
  intro b hb
  cases hr : r with
  | error fault =>
      rw [hr] at hb
      cases hb
  | ok a =>
      rw [hr] at hb
      exact hnext a (h a hr) b hb

theorem gives_ok {a : α} (h : P a) : Gives (.ok a) P := by
  rintro _ ⟨⟩
  exact h

theorem gives_error {fault : ReadFault} : Gives (.error fault) P := nofun

/-- A part of a reading of which nothing has to be known. -/
theorem gives_some (r : Reading α) : Gives r fun _ => True := fun _ _ => trivial

end Gives

section Literals

theorem inRange_gives (d : Scaled) : Gives (inRange d) Decimal.IsInRange := by
  unfold inRange
  split
  · rename_i hd
    exact gives_ok (Decimal.isInRange_of_finiteInRange? hd)
  · exact gives_error

theorem decimalOfParts_gives (parts : List Json) :
    Gives (decimalOfParts parts) Decimal.IsInRange := by
  unfold decimalOfParts
  split
  · refine (gives_some _).bind fun negative _ => (gives_some _).bind fun magnitude _ =>
      (gives_some _).bind fun n _ => ?_
    cases magnitude with
    | infinite => exact gives_ok trivial
    | undefined signals => exact gives_ok trivial
    | scaled exponent => exact inRange_gives _
  · exact gives_error

theorem decimalOf_gives (value : Json) : Gives (decimalOf value) Decimal.IsInRange := by
  unfold decimalOf
  split
  · exact inRange_gives _
  · exact inRange_gives _
  · split
    · rename_i hd
      exact gives_ok (Decimal.isInRange_of_ofText? hd)
    · exact gives_error
  · exact inRange_gives _
  · rename_i special hspecial
    refine gives_ok ?_
    cases special with
    | finite d => exact absurd rfl (hspecial d)
    | infinite | undefined => trivial
  · exact decimalOfParts_gives _
  · exact gives_error

theorem isInRange_ofJson (place : List Nat) (value : Json) :
    (Scalar.ofJson place value).IsInRange := by
  cases value <;> trivial

theorem scalarOf_gives (place : List Nat) (value : Json) :
    Gives (scalarOf place value) Scalar.IsInRange := by
  unfold scalarOf
  split
  · dsimp only
    split
    · exact gives_error
    · exact gives_ok trivial
    · exact (gives_some _).bind fun _ _ => gives_ok trivial
    · exact (gives_some _).bind fun _ _ => (gives_some _).bind fun _ _ => gives_ok trivial
    · exact (gives_some _).bind fun _ _ => (decimalOf_gives _).bind fun _ hd => gives_ok hd
    · exact (gives_some _).bind fun _ _ => gives_ok trivial
    · exact (gives_some _).bind fun value _ => gives_ok (isInRange_ofJson place value)
    · exact gives_error
  · exact gives_error

end Literals

section Fields

/-- Both readings of a member give trees whose decimals are in range. -/
structure Field.IsInRange (f : Field) : Prop where
  node : Gives f.node (Node.Every Node.IsInRange)
  nodes : Gives f.nodes (Node.EveryOf Node.IsInRange)

variable {fields : List Field}

theorem field?_isInRange (h : ∀ f ∈ fields, f.IsInRange) {key : String} {f : Field}
    (hf : field? fields key = some f) : f.IsInRange :=
  h f (List.mem_of_find?_eq_some hf)

theorem field_gives (h : ∀ f ∈ fields, f.IsInRange) (key : String) :
    Gives (field fields key) Field.IsInRange := by
  unfold field
  split
  · rename_i hf
    exact gives_ok (field?_isInRange h hf)
  · exact gives_error

theorem nodeField_gives (h : ∀ f ∈ fields, f.IsInRange) (key : String) :
    Gives (nodeField fields key) (Node.Every Node.IsInRange) :=
  (field_gives h key).bind fun _ hf => hf.node

theorem nodesField_gives (h : ∀ f ∈ fields, f.IsInRange) (key : String) :
    Gives (nodesField fields key) (Node.EveryOf Node.IsInRange) :=
  (field_gives h key).bind fun _ hf => hf.nodes

theorem optionalNodeField_gives (h : ∀ f ∈ fields, f.IsInRange) (key : String) :
    Gives (optionalNodeField fields key) (Node.Every Node.IsInRange) := by
  unfold optionalNodeField
  split
  · rename_i hf
    exact (field?_isInRange h hf).node
  · exact gives_ok trivial

theorem optionalNodesField_gives (h : ∀ f ∈ fields, f.IsInRange) (key : String) :
    Gives (optionalNodesField fields key) (Node.EveryOf Node.IsInRange) := by
  unfold optionalNodesField
  split
  · rename_i hf
    exact (field?_isInRange h hf).nodes
  · exact gives_ok trivial

theorem nodeOfFields_gives (place : List Nat) (h : ∀ f ∈ fields, f.IsInRange) :
    Gives (nodeOfFields place fields) (Node.Every Node.IsInRange) := by
  have node := nodeField_gives h
  have nodes := nodesField_gives h
  have optionalNode := optionalNodeField_gives h
  unfold nodeOfFields
  split
  · exact (nodes _).bind fun _ hgs => (nodes _).bind fun _ hfs => gives_ok ⟨trivial, hgs, hfs⟩
  · exact (gives_some _).bind fun _ _ => (gives_some _).bind fun _ _ =>
      (gives_some _).bind fun _ _ => (optionalNode _).bind fun _ hv => gives_ok ⟨trivial, hv⟩
  · exact (gives_some _).bind fun _ _ => (gives_some _).bind fun _ _ =>
      (gives_some _).bind fun _ _ => (gives_some _).bind fun _ _ =>
        (nodes _).bind fun _ hb => gives_ok ⟨trivial, hb⟩
  · exact (node _).bind fun _ he => gives_ok ⟨trivial, he⟩
  · exact (gives_some _).bind fun _ _ => (gives_some _).bind fun _ _ =>
      (optionalNode _).bind fun _ hv => gives_ok ⟨trivial, hv⟩
  · exact (node _).bind fun _ ht => (node _).bind fun _ hv => gives_ok ⟨trivial, ht, hv⟩
  · exact (node _).bind fun _ hc => (nodes _).bind fun _ ha =>
      (optionalNodesField_gives h _).bind fun _ hb => gives_ok ⟨trivial, hc, ha, hb⟩
  · exact (optionalNode _).bind fun _ hv => (nodes _).bind fun _ hb =>
      gives_ok ⟨trivial, hv, hb⟩
  · exact (node _).bind fun _ hc => (nodes _).bind fun _ ha => gives_ok ⟨trivial, hc, ha⟩
  · exact (node _).bind fun _ hc => (nodes _).bind fun _ hb => gives_ok ⟨trivial, hc, hb⟩
  · exact (optionalNode _).bind fun _ hv => gives_ok ⟨trivial, hv⟩
  · exact (gives_some _).bind fun _ _ => (scalarOf_gives place _).bind fun _ hs => gives_ok hs
  · exact (node _).bind fun _ he => gives_ok ⟨trivial, he⟩
  · exact (gives_some _).bind fun _ _ => (node _).bind fun _ hl => (node _).bind fun _ hr =>
      gives_ok ⟨trivial, hl, hr⟩
  · exact (gives_some _).bind fun _ _ => (optionalNode _).bind fun _ ho =>
      gives_ok ⟨trivial, ho⟩
  · exact (gives_some _).bind fun _ _ => (nodes _).bind fun _ ha => gives_ok ⟨trivial, ha⟩
  · exact (nodes _).bind fun _ he => gives_ok ⟨trivial, he⟩
  · exact gives_error

mutual

theorem nodeAt_gives (place : List Nat) : (value : Json) →
    Gives (nodeAt place value) (Node.Every Node.IsInRange)
  | .null => gives_ok trivial
  | .object members => nodeOfFields_gives place (isInRange_of_mem_fieldsAt place 0 members)
  | .boolean _ | .integer _ | .real _ | .string _ | .array _ => gives_error

theorem rowAt_gives (place : List Nat) : (value : Json) →
    Gives (rowAt place value) (Node.EveryOf Node.IsInRange)
  | .array items => nodesAt_gives place 0 items
  | .string text => by
      unfold rowAt
      split
      · exact gives_ok trivial
      · exact gives_error
  | .object members => by
      unfold rowAt
      split
      · exact gives_ok trivial
      · exact gives_error
  | .null | .boolean _ | .integer _ | .real _ => gives_error

theorem nodesAt_gives (place : List Nat) (position : Nat) : (items : List Json) →
    Gives (nodesAt place position items) (Node.EveryOf Node.IsInRange)
  | [] => gives_ok trivial
  | item :: items =>
      (nodeAt_gives (position :: place) item).bind fun _ ht =>
        (nodesAt_gives place (position + 1) items).bind fun _ hts => gives_ok ⟨ht, hts⟩

theorem isInRange_of_mem_fieldsAt (place : List Nat) (position : Nat) :
    (members : List (String × Json)) → ∀ f ∈ fieldsAt place position members, f.IsInRange
  | [] => nofun
  | (_, value) :: members => by
      intro f hf
      rcases List.mem_cons.mp hf with rfl | hf
      · exact ⟨nodeAt_gives (position :: place) value, rowAt_gives (position :: place) value⟩
      · exact isInRange_of_mem_fieldsAt place (position + 1) members f hf

end

end Fields

/-- The value that is written for what a value reads as, if it reads as a tree that can be
written. -/
def normalized? (value : Json) : Option Json :=
  match ofJson value with
  | .ok t => if isWritable t then some (toJson t) else none
  | .error _ => none

theorem normalized?_eq_some {value written : Json} :
    normalized? value = some written ↔
      ∃ t, ofJson value = .ok t ∧ isWritable t = true ∧ toJson t = written := by
  unfold normalized?
  cases ofJson value with
  | error fault => simp
  | ok t => simp

/-- Every tree that can be written reads back as it was, whatever its shape; and a value that
was read and written once stays as it is when that is done again. -/
theorem written_trees_read_back :
    (∀ t : Node, isWritable t = true → t.Every Node.IsInRange → ofJson (toJson t) = .ok t) ∧
      ∀ value written : Json, normalized? value = some written →
        normalized? written = some written := by
  refine ⟨fun t hw ht => nodeAt_toJson [] hw ht, fun value written h => ?_⟩
  obtain ⟨t, hread, hw, rfl⟩ := normalized?_eq_some.mp h
  have ht : t.Every Node.IsInRange := nodeAt_gives [] value t hread
  exact normalized?_eq_some.mpr ⟨t, nodeAt_toJson [] hw ht, hw, rfl⟩

/-- A tree of no program: a switch with a case that is a list, and a literal of each kind. -/
def unshapedTree : Node :=
  .switch .absent [.list [.literal .nil, .literal (.boolean true), .literal (.integer (-12)),
    .literal (.decimal (.finite ⟨true, 0, -2⟩)), .literal (.decimal (.finite ⟨false, 10, -8⟩)),
    .literal (.decimal (.infinite true)), .literal (.ofCharacter "c"),
    .literal (.string "c")], .evaluation .absent]

/-- An object with a member too many, and with a decimal that is written in another way. -/
def loosePart : Json :=
  .object [("value", .object [("value", .object [("value", .string " 1_0.50 "),
    ("kind", .string "decimal")]), ("type", .string "Literal")]), ("line", .integer 7),
    ("type", .string "ReturnStmt")]

/-- The object as it is written. -/
def plainPart : Json :=
  .object [("type", .string "ReturnStmt"), ("value", .object [("type", .string "Literal"),
    ("value", .object [("kind", .string "decimal"), ("value", .string "10.50")])])]

theorem unshapedTree_reads_back :
    isWritable unshapedTree = true ∧ unshapedTree.Every Node.IsInRange ∧
      ofJson (toJson unshapedTree) = .ok unshapedTree ∧
      normalized? loosePart = some plainPart ∧ normalized? plainPart = some plainPart := by
  have hw : isWritable unshapedTree = true := by decide
  have hrange : unshapedTree.Every Node.IsInRange := by
    have hzero : (Decimal.finite ⟨true, 0, -2⟩).IsInRange := by decide +kernel
    have hten : (Decimal.finite ⟨false, 10, -8⟩).IsInRange := by decide +kernel
    have hinfinite : (Decimal.infinite true).IsInRange := by decide +kernel
    simpa [unshapedTree, Node.Every, Node.EveryOf, Node.IsInRange, Scalar.IsInRange,
      Scalar.ofCharacter] using ⟨hzero, hten, hinfinite⟩
  have hloose : normalized? loosePart = some plainPart := by decide +kernel
  exact ⟨hw, hrange, written_trees_read_back.1 _ hw hrange, hloose,
    written_trees_read_back.2 _ _ hloose⟩

end Tree
end BlockScript
