import Offside.Program.ClassTable

/-! The nodes of a program: the trees that stand in it at any depth, each with the slot that it stands
in. The bodies of methods are not below the definition of their class, they are nodes of the program. -/
namespace Offside

/-- What a tree is to the tree around it. A `member` is a statement of a program or of a block, a `suite`
the body of a method or of a conditional, a `multiplier` the right operand of a product. Every other
part is an `operand`: conditions, arguments and assigned values as well. -/
inductive Slot where
  | member | suite | receiver | multiplier | operand
  deriving DecidableEq, Repr

structure Node where
  slot : Slot
  tree : Stmt
  deriving Repr

namespace Stmt

mutual

def parts : Stmt → List Node
  | .path _ | .number _ | .string _ | .bool _ | .none | .define _ => []
  | .assign _ value | .setField _ _ value | .negate value | .result value | .stringify value =>
    ⟨.operand, value⟩ :: value.parts
  | .arithmetic op left right =>
    (⟨.operand, left⟩ :: left.parts) ++
      ⟨if op = .multiply then .multiplier else .operand, right⟩ :: right.parts
  | .both left right | .either left right | .compare _ left right =>
    (⟨.operand, left⟩ :: left.parts) ++ ⟨.operand, right⟩ :: right.parts
  | .block body => partsAll .member body
  | .branch condition yes no =>
    (⟨.operand, condition⟩ :: condition.parts) ++ (⟨.suite, yes⟩ :: yes.parts) ++ partsElse no
  | .print args | .create _ args => partsAll .operand args
  | .call receiver _ args => (⟨.receiver, receiver⟩ :: receiver.parts) ++ partsAll .operand args

def partsAll (slot : Slot) : List Stmt → List Node
  | [] => []
  | first :: rest => (⟨slot, first⟩ :: first.parts) ++ partsAll slot rest

def partsElse : Option Stmt → List Node
  | .none => []
  | .some no => ⟨.suite, no⟩ :: no.parts

end

def nodes (slot : Slot) (tree : Stmt) : List Node := ⟨slot, tree⟩ :: tree.parts

theorem partsAllFlat (slot : Slot) (trees : List Stmt) :
    partsAll slot trees = trees.flatMap (nodes slot) := by
  induction trees with
  | nil => rfl
  | cons first rest ih => simp [partsAll, nodes, ih]

theorem allParts {holds : Node → Prop} {slot : Slot} {trees : List Stmt} :
    (∀ node ∈ partsAll slot trees, holds node) ↔ ∀ tree ∈ trees, ∀ node ∈ tree.nodes slot, holds node := by
  simp only [partsAllFlat, List.mem_flatMap]
  exact ⟨fun all tree member node inside => all node ⟨tree, member, inside⟩,
    fun all node ⟨tree, member, inside⟩ => all tree member node inside⟩

theorem memberAll {slot : Slot} {tree : Stmt} {trees : List Stmt} (member : tree ∈ trees) :
    tree ∈ (partsAll slot trees).map Node.tree := by
  have listed : ⟨slot, tree⟩ ∈ partsAll slot trees := by
    simp only [partsAllFlat, List.mem_flatMap]
    exact ⟨tree, member, List.mem_cons_self⟩
  exact List.mem_map.mpr ⟨_, listed, rfl⟩

end Stmt

namespace Node

def Closed (nodes : List Node) : Prop :=
  ∀ node ∈ nodes, ∀ inner ∈ node.tree.parts, inner ∈ nodes

theorem closedNil : Closed [] := fun _ member => absurd member List.not_mem_nil

theorem closedNodes {tree : Stmt} (slot : Slot) (closed : Closed tree.parts) :
    Closed (tree.nodes slot) := by
  intro node member inner below
  rcases List.mem_cons.mp member with same | deeper
  · subst same
    exact List.mem_cons_of_mem _ below
  · exact List.mem_cons_of_mem _ (closed node deeper inner below)

theorem closedAppend {first second : List Node} (left : Closed first) (right : Closed second) :
    Closed (first ++ second) := by
  intro node member inner below
  rcases List.mem_append.mp member with front | back
  · exact List.mem_append_left _ (left node front inner below)
  · exact List.mem_append_right _ (right node back inner below)

mutual

theorem closedParts (tree : Stmt) : Closed tree.parts := by
  cases tree with
  | path | number | string | bool | none | define => exact closedNil
  | assign _ value | setField _ _ value | negate value | result value | stringify value =>
    exact closedNodes _ (closedParts value)
  | arithmetic _ left right | both left right | either left right | compare _ left right =>
    exact closedAppend (closedNodes _ (closedParts left)) (closedNodes _ (closedParts right))
  | block body => exact closedAll _ body
  | branch condition yes no =>
    exact closedAppend (closedAppend (closedNodes _ (closedParts condition))
      (closedNodes _ (closedParts yes))) (closedElse no)
  | print args | create _ args => exact closedAll _ args
  | call receiver _ args =>
    exact closedAppend (closedNodes _ (closedParts receiver)) (closedAll _ args)

theorem closedAll (slot : Slot) (trees : List Stmt) : Closed (Stmt.partsAll slot trees) := by
  cases trees with
  | nil => exact closedNil
  | cons first rest => exact closedAppend (closedNodes _ (closedParts first)) (closedAll slot rest)

theorem closedElse (no : Option Stmt) : Closed (Stmt.partsElse no) := by
  cases no with
  | none => exact closedNil
  | some tree => exact closedNodes _ (closedParts tree)

end

end Node

namespace Stmt

structure Only (allows : Stmt → Prop) (tree : Stmt) : Prop where
  here : allows tree
  below : ∀ node ∈ tree.parts, allows node.tree

theorem onlyNodes {allows : Stmt → Prop} {tree : Stmt} (slot : Slot) :
    (∀ node ∈ tree.nodes slot, allows node.tree) ↔ tree.Only allows := by
  rw [nodes, List.forall_mem_cons]
  exact ⟨fun both => ⟨both.1, both.2⟩, fun only => ⟨only.here, only.below⟩⟩

theorem Only.imp {allows admits : Stmt → Prop} {tree : Stmt} (only : tree.Only allows)
    (implied : ∀ {part}, allows part → admits part) : tree.Only admits :=
  ⟨implied only.here, fun node member => implied (only.below node member)⟩

theorem Only.part {allows : Stmt → Prop} {tree child : Stmt} (only : Only allows tree)
    (inside : child ∈ tree.parts.map Node.tree) : Only allows child := by
  obtain ⟨node, listed, rfl⟩ := List.mem_map.mp inside
  refine ⟨only.below node listed, fun inner deeper => ?_⟩
  exact only.below inner (Node.closedParts tree node listed inner deeper)

end Stmt

namespace ClassDef

def nodes (cls : ClassDef) : List Node := cls.declared.flatMap fun method => method.body.nodes .suite

end ClassDef

namespace Program

def nodes (program : Program) : List Node :=
  Stmt.partsAll .member program.statements ++ program.classes.classes.toList.flatMap ClassDef.nodes

theorem nodeTop {program : Program} {tree : Stmt} {node : Node} (member : tree ∈ program.statements)
    (inside : node ∈ tree.nodes .member) : node ∈ program.nodes := by
  refine List.mem_append_left _ ?_
  simp only [Stmt.partsAllFlat, List.mem_flatMap]
  exact ⟨tree, member, inside⟩

theorem nodeMethod {program : Program} {id : ClassId} {cls : ClassDef} {method : Method} {node : Node}
    (held : program.classes.get? id = some cls) (declared : method ∈ cls.declared)
    (inside : node ∈ method.body.nodes .suite) : node ∈ program.nodes := by
  have listed : cls ∈ program.classes.classes.toList := Array.mem_toList_iff.mpr (Array.mem_of_getElem? held)
  refine List.mem_append_right _ (List.mem_flatMap.mpr ⟨cls, listed, ?_⟩)
  exact List.mem_flatMap.mpr ⟨method, declared, inside⟩

theorem nodeCases {program : Program} {node : Node} (member : node ∈ program.nodes) :
    (∃ tree ∈ program.statements, node ∈ tree.nodes .member) ∨
    ∃ id cls, program.classes.get? id = some cls ∧
      ∃ method ∈ cls.declared, node ∈ method.body.nodes .suite := by
  rcases List.mem_append.mp member with top | inner
  · rw [Stmt.partsAllFlat, List.mem_flatMap] at top
    exact .inl top
  · obtain ⟨cls, listed, inside⟩ := List.mem_flatMap.mp inner
    obtain ⟨id, held⟩ := Array.mem_iff_getElem?.mp (Array.mem_toList_iff.mp listed)
    exact .inr ⟨id, cls, held, List.mem_flatMap.mp inside⟩

theorem nodesClosed (program : Program) : Node.Closed program.nodes := by
  intro node member inner below
  rcases nodeCases member with ⟨tree, listed, inside⟩ | ⟨id, cls, held, method, declared, inside⟩
  · exact nodeTop listed (Node.closedNodes _ (Node.closedParts tree) node inside inner below)
  · exact nodeMethod held declared
      (Node.closedNodes _ (Node.closedParts method.body) node inside inner below)

variable {program : Program} {allows : Stmt → Prop} (all : ∀ node ∈ program.nodes, allows node.tree)
include all

theorem onlyTop {tree : Stmt} (member : tree ∈ program.statements) : tree.Only allows :=
  (Stmt.onlyNodes .member).mp fun node inside => all node (nodeTop member inside)

theorem onlyMethod {id : ClassId} {cls : ClassDef} {method : Method}
    (held : program.classes.get? id = some cls) (declared : method ∈ cls.declared) :
    method.body.Only allows :=
  (Stmt.onlyNodes .suite).mp fun node inside => all node (nodeMethod held declared inside)

end Program

end Offside
