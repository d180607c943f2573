import BlockScript.Json.Basic
import BlockScript.Tree.Basic

/-!
# Reading trees

An object is read by the type that it names, and its fields in a fixed order, so that
the first fault met is the one reported.  Null is the absent node.  A field whose node
may be absent may be left out.

The members of an object are read twice, as a node and as a row of nodes; the type of
the object decides which of the two readings counts.  So reading follows the structure
of the value and always ends.

A place is the way to a value inside the one that is read: the positions of items and
members, the last one first.
-/

namespace BlockScript

/-- Why a value is no tree. -/
inductive ReadFault
  /-- A node is neither an object nor null. -/
  | notAnObject
  /-- A field is missing. -/
  | missingKey (key : String)
  /-- The type of a node is not known. -/
  | unknownType (name : String)
  /-- The kind of a literal is not known. -/
  | unknownLiteral (kind : String)
  /-- A field holds a value of another shape. -/
  | wrongShape
  /-- An integer literal has no integer. -/
  | notAnInteger
  /-- A decimal literal has no decimal. -/
  | notADecimal
  /-- The parts of a decimal are not a sign, digits and an exponent. -/
  | wrongParts
  /-- An infinity stands for an integer, or a part of a decimal is out of reach. -/
  | tooLarge
deriving DecidableEq, Inhabited

namespace Tree

/-- A result of reading, or the first fault. -/
abbrev Reading (α : Type) : Type := Except ReadFault α

/-- One member of an object, read both as a node and as a row of nodes. -/
structure Field where
  key : String
  value : Json
  node : Reading Node
  nodes : Reading (List Node)

/-- The first member of a key. -/
def field? (fields : List Field) (key : String) : Option Field :=
  fields.find? fun f => f.key == key

/-- The member of a key that has to be there. -/
def field (fields : List Field) (key : String) : Reading Field :=
  match field? fields key with
  | some f => .ok f
  | none => .error (.missingKey key)

/-- The node of a field that has to be there. -/
def nodeField (fields : List Field) (key : String) : Reading Node := do
  (← field fields key).node

/-- The node of a field, absent where the field is. -/
def optionalNodeField (fields : List Field) (key : String) : Reading Node :=
  match field? fields key with
  | some f => f.node
  | none => .ok .absent

/-- The row of nodes of a field that has to be there. -/
def nodesField (fields : List Field) (key : String) : Reading (List Node) := do
  (← field fields key).nodes

/-- The row of nodes of a field, empty where the field is left out. -/
def optionalNodesField (fields : List Field) (key : String) : Reading (List Node) :=
  match field? fields key with
  | some f => f.nodes
  | none => .ok []

/-- The name of a field that has to be there. -/
def nameField (fields : List Field) (key : String) : Reading Name := do
  return ⟨(← field fields key).value⟩

/-- The name of a field, missing where the field is null or left out. -/
def optionalNameField (fields : List Field) (key : String) : Reading Name :=
  match field? fields key with
  | some f => .ok ⟨f.value⟩
  | none => .ok .missing

/-- The row that a value stands for: the items of an array, the characters of a text or
the keys of an object. -/
def rowOf : Json → Reading (List Json)
  | .array items => .ok items
  | .string text => .ok (text.toList.map fun c => .string c.toString)
  | .object members => .ok (members.map fun m => .string m.1)
  | _ => .error .wrongShape

/-- The names of a field that has to be there. -/
def namesField (fields : List Field) (key : String) : Reading (List Name) := do
  return (← rowOf (← field fields key).value).map Name.mk

/-- The truth of a field that has to be there. -/
def truthField (fields : List Field) (key : String) : Reading Bool := do
  return (← field fields key).value.isTruthy

/-- The member of a key in an object. -/
def member? (members : List (String × Json)) (key : String) : Option Json :=
  (members.find? fun m => m.1 == key).map Prod.snd

/-- The integer that a number of double precision denotes; a fraction is cut off. -/
def truncated : Decimal → Reading Int
  | .finite d =>
      .ok (Int.tdiv (d.signedCoefficient * 10 ^ d.exponent.toNat) (10 ^ (-d.exponent).toNat))
  | .infinite _ => .error .tooLarge
  | .undefined .. => .error .notAnInteger

/-- The integer that a value denotes. -/
def integerOf : Json → Reading Int
  | .integer n => .ok n
  | .boolean b => .ok b.toNat
  | .string text =>
      match Text.readLooseInt? text.toList with
      | some n => .ok n
      | none => .error .notAnInteger
  | .real d => truncated d
  | _ => .error .wrongShape

/-- A part of a decimal that is an integer of a machine word. -/
def wordOf : Json → Reading Int
  | .integer n => if -2 ^ (63 : Nat) ≤ n ∧ n < 2 ^ (63 : Nat) then .ok n else .error .tooLarge
  | .boolean b => .ok b.toNat
  | _ => .error .wrongParts

/-- The sign of a decimal, for which one stands for the minus. -/
def signOf (value : Json) : Reading Bool := do
  let n ← wordOf value
  if n = 0 then return false else if n = 1 then return true else .error .wrongParts

/-- A digit of a decimal. -/
def digitOf (value : Json) : Reading Nat := do
  let n ← wordOf value
  if 0 ≤ n ∧ n ≤ 9 then return n.toNat else .error .wrongParts

/-- The number of the digits of a decimal. -/
def digitsOf : Json → Reading Nat
  | .array items => do
      let ds ← items.mapM digitOf
      return ds.foldl (fun n d => 10 * n + d) 0
  | _ => .error .wrongParts

/-- The last part of a decimal: its exponent, or the letter of a special number. -/
inductive Magnitude
  | scaled (exponent : Int)
  | infinite
  | undefined (signals : Bool)

/-- The last part of a decimal. -/
def magnitudeOf : Json → Reading Magnitude
  | .string "F" => .ok .infinite
  | .string "n" => .ok (.undefined false)
  | .string "N" => .ok (.undefined true)
  | value => (wordOf value).map .scaled

/-- A finite decimal whose exponent is in range. -/
def inRange (d : Scaled) : Reading Decimal :=
  match Decimal.finiteInRange? d with
  | some d => .ok d
  | none => .error .notADecimal

/-- The decimal of its parts: the sign, the digits, and the exponent or a letter. -/
def decimalOfParts : List Json → Reading Decimal
  | [sign, digits, last] => do
      let negative ← signOf sign
      let magnitude ← magnitudeOf last
      let n ← digitsOf digits
      match magnitude with
      | .infinite => return .infinite negative
      | .undefined signals => return .undefined negative signals n
      | .scaled exponent => inRange ⟨negative, n, exponent⟩
  | _ => .error .wrongParts

/-- The decimal that a value denotes. -/
def decimalOf : Json → Reading Decimal
  | .integer n => inRange ⟨decide (n < 0), n.natAbs, 0⟩
  | .boolean b => inRange ⟨false, b.toNat, 0⟩
  | .string text =>
      match Decimal.ofText? text with
      | some d => .ok d
      | none => .error .notADecimal
  | .real (.finite d) => inRange d
  | .real special => .ok special
  | .array parts => decimalOfParts parts
  | _ => .error .wrongShape

/-- The value of a literal in a place. -/
def scalarOf (place : List Nat) : Json → Reading Scalar
  | .object members =>
      let value : Reading Json :=
        match member? members "value" with
        | some v => .ok v
        | none => .error (.missingKey "value")
      match member? members "kind" with
      | none => .error (.missingKey "kind")
      | some (.string "nil") => .ok .nil
      | some (.string "boolean") => do return .boolean (← value).isTruthy
      | some (.string "integer") => do return .integer (← integerOf (← value))
      | some (.string "decimal") => do return .decimal (← decimalOf (← value))
      | some (.string "character") => do return .character (← value)
      | some (.string "string") => do return .ofJson place (← value)
      | some kind => .error (.unknownLiteral kind.describe)
  | _ => .error .wrongShape

/-- The name of the type that an object gives. -/
def typeName (fields : List Field) : Json :=
  match field? fields "type" with
  | some f => f.value
  | none => .null

/-- The node of an object in a place with the given fields. -/
def nodeOfFields (place : List Nat) (fields : List Field) : Reading Node :=
  match typeName fields with
  | .string "Source" => do
      return .source (← nodesField fields "globals") (← nodesField fields "functions")
  | .string "GlobalDecl" => do
      return .global (← nameField fields "name") (← optionalNameField fields "type_name")
        (← truthField fields "mutable") (← optionalNodeField fields "value")
  | .string "FuncDecl" => do
      return .function (← nameField fields "name") (← namesField fields "params")
        (← namesField fields "param_types") (← optionalNameField fields "return_type")
        (← nodesField fields "body")
  | .string "ExprStmt" => do return .evaluation (← nodeField fields "expr")
  | .string "VarDecl" => do
      return .declaration (← nameField fields "name") (← optionalNameField fields "type_name")
        (← optionalNodeField fields "value")
  | .string "Assign" => do
      return .assignment (← nodeField fields "target") (← nodeField fields "value")
  | .string "IfStmt" => do
      return .conditional (← nodeField fields "condition") (← nodesField fields "then_body")
        (← optionalNodesField fields "else_body")
  | .string "CaseStmt" => do
      return .arm (← optionalNodeField fields "value") (← nodesField fields "body")
  | .string "SwitchStmt" => do
      return .switch (← nodeField fields "condition") (← nodesField fields "cases")
  | .string "WhileStmt" => do
      return .loop (← nodeField fields "condition") (← nodesField fields "body")
  | .string "ReturnStmt" => do return .returning (← optionalNodeField fields "value")
  | .string "Literal" => do return .literal (← scalarOf place (← field fields "value").value)
  | .string "Group" => do return .group (← nodeField fields "expr")
  | .string "BinaryOp" => do
      return .binary (← nameField fields "op") (← nodeField fields "left")
        (← nodeField fields "right")
  | .string "Access" => do
      return .access (← nameField fields "name") (← optionalNodeField fields "offset")
  | .string "Call" => do
      return .call (← nameField fields "name") (← nodesField fields "args")
  | .string "ListLit" => do return .list (← nodesField fields "elements")
  | name => .error (.unknownType name.describe)

mutual

/-- The tree of a value in a place. -/
def nodeAt (place : List Nat) : Json → Reading Node
  | .null => .ok .absent
  | .object members => nodeOfFields place (fieldsAt place 0 members)
  | _ => .error .notAnObject

/-- The row of trees of a value in a place.  The characters of a text and the keys of an
object are no trees. -/
def rowAt (place : List Nat) : Json → Reading (List Node)
  | .array items => nodesAt place 0 items
  | .string text => if text = "" then .ok [] else .error .notAnObject
  | .object members => if members.isEmpty then .ok [] else .error .notAnObject
  | _ => .error .wrongShape

/-- The trees of the items of an array, from a position on. -/
def nodesAt (place : List Nat) (position : Nat) : List Json → Reading (List Node)
  | [] => .ok []
  | item :: items => do
      let node ← nodeAt (position :: place) item
      let nodes ← nodesAt place (position + 1) items
      return node :: nodes

/-- The members of an object, from a position on, each read both ways. -/
def fieldsAt (place : List Nat) (position : Nat) : List (String × Json) → List Field
  | [] => []
  | (key, value) :: members =>
      ⟨key, value, nodeAt (position :: place) value, rowAt (position :: place) value⟩
        :: fieldsAt place (position + 1) members

end

/-- The tree of a value. -/
def ofJson (value : Json) : Reading Node := nodeAt [] value

end Tree
end BlockScript
