import BlockScript.Tree.Basic

/-!
# The nodes of a tree in order

A node stands in front of its parts, and these stand in the order of its fields.  Absent nodes
are left out.
-/

namespace BlockScript
namespace Node

mutual

/-- The nodes of a tree, each in front of its parts. -/
def preorder : Node → List Node
  | absent => []
  | source globals functions =>
      source globals functions :: (preorderOf globals ++ preorderOf functions)
  | global name typeName isMutable value =>
      global name typeName isMutable value :: preorder value
  | function name parameters parameterTypes returnType body =>
      function name parameters parameterTypes returnType body :: preorderOf body
  | evaluation expression => evaluation expression :: preorder expression
  | declaration name typeName value => declaration name typeName value :: preorder value
  | assignment target value => assignment target value :: (preorder target ++ preorder value)
  | conditional condition thenBody elseBody =>
      conditional condition thenBody elseBody ::
        (preorder condition ++ preorderOf thenBody ++ preorderOf elseBody)
  | arm value body => arm value body :: (preorder value ++ preorderOf body)
  | switch condition arms => switch condition arms :: (preorder condition ++ preorderOf arms)
  | loop condition body => loop condition body :: (preorder condition ++ preorderOf body)
  | returning value => returning value :: preorder value
  | literal value => [literal value]
  | group expression => group expression :: preorder expression
  | binary operator left right =>
      binary operator left right :: (preorder left ++ preorder right)
  | access name offset => access name offset :: preorder offset
  | call name arguments => call name arguments :: preorderOf arguments
  | list elements => list elements :: preorderOf elements

/-- The nodes of a row of trees. -/
def preorderOf : List Node → List Node
  | [] => []
  | node :: nodes => preorder node ++ preorderOf nodes

end

/-- Whether a node is an expression. -/
def isExpression : Node → Bool
  | literal _ => true
  | group _ => true
  | binary _ _ _ => true
  | access _ _ => true
  | call _ _ => true
  | list _ => true
  | _ => false

/-- Whether a node uses a variable or declares one. -/
def bindsVariable : Node → Bool
  | access _ _ => true
  | global _ _ _ _ => true
  | declaration _ _ _ => true
  | _ => false

/-- Whether a node calls a function or declares one. -/
def bindsFunction : Node → Bool
  | call _ _ => true
  | function _ _ _ _ _ => true
  | _ => false

/-- Whether something is known of a node when its tree is checked. -/
def isRecorded (node : Node) : Bool :=
  node.isExpression || node.bindsVariable || node.bindsFunction

/-- The nodes of a tree of which something is known, in order. -/
def recorded (node : Node) : List Node := node.preorder.filter isRecorded

/-- The nodes of a row of trees of which something is known, in order. -/
def recordedOf (nodes : List Node) : List Node := (preorderOf nodes).filter isRecorded

section Recorded

variable {name typeName returnType operator : Name} {parameters parameterTypes : List Name}
  {isMutable : Bool} {node left right value : Node} {nodes body thenBody elseBody : List Node}
  {s : Scalar}

@[simp] theorem recordedOf_nil : recordedOf [] = [] := rfl

@[simp] theorem recordedOf_cons : recordedOf (node :: nodes) = node.recorded ++ recordedOf nodes :=
  List.filter_append _ _

@[simp] theorem recordedOf_append {nodes' : List Node} :
    recordedOf (nodes ++ nodes') = recordedOf nodes ++ recordedOf nodes' := by
  induction nodes with
  | nil => rfl
  | cons node nodes ih => rw [List.cons_append, recordedOf_cons, recordedOf_cons, ih,
      List.append_assoc]

@[simp] theorem recorded_absent : absent.recorded = [] := rfl

@[simp] theorem recorded_literal : (literal s).recorded = [literal s] := rfl

@[simp] theorem recorded_group : (group node).recorded = group node :: node.recorded := rfl

@[simp] theorem recorded_binary : (binary operator left right).recorded =
    binary operator left right :: (left.recorded ++ right.recorded) :=
  congrArg _ (List.filter_append _ _)

@[simp] theorem recorded_access : (access name node).recorded =
    access name node :: node.recorded := rfl

@[simp] theorem recorded_call : (call name nodes).recorded =
    call name nodes :: recordedOf nodes := rfl

@[simp] theorem recorded_list : (list nodes).recorded = list nodes :: recordedOf nodes := rfl

@[simp] theorem recorded_evaluation : (evaluation node).recorded = node.recorded := rfl

@[simp] theorem recorded_returning : (returning node).recorded = node.recorded := rfl

@[simp] theorem recorded_assignment :
    (assignment left right).recorded = left.recorded ++ right.recorded :=
  List.filter_append _ _

@[simp] theorem recorded_declaration : (declaration name typeName value).recorded =
    declaration name typeName value :: value.recorded := rfl

@[simp] theorem recorded_global : (global name typeName isMutable value).recorded =
    global name typeName isMutable value :: value.recorded := rfl

@[simp] theorem recorded_function :
    (function name parameters parameterTypes returnType body).recorded =
      function name parameters parameterTypes returnType body :: recordedOf body := rfl

@[simp] theorem recorded_conditional : (conditional node thenBody elseBody).recorded =
    node.recorded ++ recordedOf thenBody ++ recordedOf elseBody :=
  (List.filter_append _ _).trans (congrArg (· ++ _) (List.filter_append _ _))

@[simp] theorem recorded_loop : (loop node body).recorded = node.recorded ++ recordedOf body :=
  List.filter_append _ _

@[simp] theorem recorded_switch :
    (switch node nodes).recorded = node.recorded ++ recordedOf nodes :=
  List.filter_append _ _

@[simp] theorem recorded_arm : (arm node body).recorded = node.recorded ++ recordedOf body :=
  List.filter_append _ _

@[simp] theorem recorded_source :
    (source nodes body).recorded = recordedOf nodes ++ recordedOf body :=
  List.filter_append _ _

end Recorded

end Node
end BlockScript
