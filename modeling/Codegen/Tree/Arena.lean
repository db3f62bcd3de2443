import Codegen.Span
import Codegen.Tree.Kind

/-!
The arena: the owner of all nodes. A destroyed node leaves its slot empty, so that no number is
given out twice and a stale one is noticed.
-/

namespace Codegen

/-- What is known about a node's value. -/
structure NodeFlags where
  /-- The value is the address of an object of the node's type, not yet loaded. -/
  address : Bool
  /-- The value is a constant. -/
  constant : Bool
  deriving DecidableEq, Repr

def NodeFlags.none : NodeFlags := ⟨false, false⟩

structure Node where
  kind : NodeKind
  kids : List NodeId
  span : Span
  /-- The type of the result; `void` for a statement. -/
  ty : TypeId
  value : Option Value
  /-- The node's own instructions, which run after those of the children. -/
  insts : List InstId
  flags : NodeFlags
  deriving DecidableEq, Repr

namespace Node

/-- A node without value and instructions. -/
def fresh (kind : NodeKind) (kids : List NodeId) (ty : TypeId) (span : Span) : Node :=
  ⟨kind, kids, span, ty, none, [], .none⟩

def isStmt (n : Node) : Bool := n.kind.isStmt

def isExpr (n : Node) : Bool := n.kind.isExpr

def isBuilding (n : Node) : Bool := n.kind.compositeState? == some .building

theorem isExpr_eq (n : Node) : n.isExpr = !n.isStmt := rfl

end Node

structure Arena where
  nodes : Array (Option Node)
  deriving DecidableEq, Repr

namespace Arena

/-- An arena of the two sentinels alone. -/
def initial : Arena :=
  ⟨#[some (Node.fresh .error [] .error .synthetic),
    some (Node.fresh .errorStmt [] .void .synthetic)]⟩

def size (a : Arena) : Nat := a.nodes.size

/-- A live node. -/
def find? (a : Arena) (id : NodeId) : Option Node := a.nodes[id.index]?.join

def isLive (a : Arena) (id : NodeId) : Bool := (a.find? id).isSome

def liveCount (a : Arena) : Nat := a.nodes.countP Option.isSome

def get (a : Arena) (id : NodeId) : Except Fault Node :=
  match a.find? id with
  | some node => .ok node
  | none => .error (.destroyedNode id.index)

/-- Takes a node in at the next free number. -/
def add (a : Arena) (node : Node) : NodeId × Arena := (⟨a.size⟩, ⟨a.nodes.push (some node)⟩)

/-- Puts a node in the place of another. -/
def set (a : Arena) (id : NodeId) (node : Node) : Arena :=
  ⟨a.nodes.modify id.index fun _ => some node⟩

/-- Empties the slot of a node. -/
def kill (a : Arena) (id : NodeId) : Arena := ⟨a.nodes.modify id.index fun _ => none⟩

/-- Changes a live node. -/
def update (a : Arena) (id : NodeId) (f : Node → Node) : Except Fault Arena := do
  return a.set id (f (← a.get id))

theorem isLive_of_find? {a : Arena} {id : NodeId} {node : Node} (h : a.find? id = some node) :
    a.isLive id := by
  simp [isLive, h]

@[simp] theorem find?_add (a : Arena) (node : Node) :
    (a.add node).2.find? (a.add node).1 = some node := by
  simp [add, find?, size]

theorem find?_add_of_ne {a : Arena} {node : Node} {id : NodeId} (h : id ≠ (a.add node).1) :
    (a.add node).2.find? id = a.find? id := by
  obtain ⟨i⟩ := id
  have : i ≠ a.nodes.size := by simpa [add, size] using h
  simp [add, find?, Array.getElem?_push, this]

theorem find?_set {a : Arena} {id : NodeId} {node : Node} (h : a.isLive id) :
    (a.set id node).find? id = some node := by
  cases e : a.nodes[id.index]? <;> simp_all [set, isLive, find?, Array.getElem?_modify]

theorem find?_set_of_ne {a : Arena} {id other : NodeId} {node : Node} (h : other ≠ id) :
    (a.set id node).find? other = a.find? other := by
  obtain ⟨i⟩ := id
  obtain ⟨j⟩ := other
  have : i ≠ j := fun e => h (by rw [e])
  simp [set, find?, Array.getElem?_modify, this]

@[simp] theorem find?_kill (a : Arena) (id : NodeId) : (a.kill id).find? id = none := by
  cases h : a.nodes[id.index]? <;> simp [kill, find?, Array.getElem?_modify, h]

theorem find?_kill_of_ne {a : Arena} {id other : NodeId} (h : other ≠ id) :
    (a.kill id).find? other = a.find? other := by
  obtain ⟨i⟩ := id
  obtain ⟨j⟩ := other
  have : i ≠ j := fun e => h (by rw [e])
  simp [kill, find?, Array.getElem?_modify, this]

@[simp] theorem size_add (a : Arena) (node : Node) : (a.add node).2.size = a.size + 1 := by
  simp [add, size]

@[simp] theorem size_set (a : Arena) (id : NodeId) (node : Node) :
    (a.set id node).size = a.size := by
  simp [set, size]

@[simp] theorem size_kill (a : Arena) (id : NodeId) : (a.kill id).size = a.size := by
  simp [kill, size]

theorem lt_of_find? {a : Arena} {id : NodeId} {node : Node} (h : a.find? id = some node) :
    id.index < a.size := by
  rw [find?, Option.join_eq_some_iff] at h
  exact (Array.getElem?_eq_some_iff.1 h).1

theorem get_eq_ok {a : Arena} {id : NodeId} {node : Node} :
    a.get id = .ok node ↔ a.find? id = some node := by
  unfold get
  split <;> simp_all

end Arena

end Codegen
