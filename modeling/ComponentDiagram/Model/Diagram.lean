import ComponentDiagram.Model.Document

/-! The flat view of a diagram: one list of nodes that name their parent and their children, one
list of ports that name their owner. -/
namespace ComponentDiagram

/-- A node of the flat view; `x` and `y` are its centre. -/
structure FlatNode (α : Type) where
  id : String
  label : String
  x : α
  y : α
  width : Option α := none
  height : Option α := none
  parent : Option String := none
  depth : Nat := 0
  childIds : List String := []
  /-- The author, or a drag, has set the position. -/
  pinned : Bool := false
deriving Repr, BEq

structure FlatPort (α : Type) where
  id : String
  owner : String
  side : Side
  offset : α
  label : Option String := none
  connectorRef : Option String := none
deriving Repr, BEq

structure Diagram (α : Type) where
  type : DiagramType := .component
  nodes : List (FlatNode α) := []
  ports : List (FlatPort α) := []
  connectors : List Connector := []
deriving BEq

/-- Change the last element that passes the test. -/
def modifyLast {β : Type} (test : β → Bool) (change : β → β) : List β → List β
  | [] => []
  | b :: rest =>
    if rest.any test then b :: modifyLast test change rest
    else if test b then change b :: rest
    else b :: rest

namespace Diagram

variable {α : Type}

/-- The node that an id stands for: the last one in the list that has it. -/
def node? (d : Diagram α) (id : String) : Option (FlatNode α) :=
  d.nodes.reverse.find? (·.id == id)

def modifyNode (d : Diagram α) (id : String) (change : FlatNode α → FlatNode α) : Diagram α :=
  { d with nodes := modifyLast (·.id == id) change d.nodes }

/-- The nodes without a parent. -/
def roots (d : Diagram α) : List (FlatNode α) :=
  d.nodes.filter (·.parent.isNone)

/-- The nodes that the children of a node's entry stand for, in order. -/
def childrenOf (d : Diagram α) (id : String) : List (FlatNode α) :=
  match d.node? id with
  | some n => n.childIds.filterMap d.node?
  | none => []

/-- What lies below a node, in pre-order, to a bounded depth. -/
def descendantsTo (d : Diagram α) : Nat → String → List (FlatNode α)
  | 0, _ => []
  | depth + 1, id => (d.childrenOf id).flatMap fun child => child :: d.descendantsTo depth child.id

/-- All that lies below a node, in pre-order. No chain of children is longer than the list of
nodes. -/
def descendants (d : Diagram α) (id : String) : List (FlatNode α) :=
  d.descendantsTo (d.nodes.length + 1) id

def portsOf (d : Diagram α) (owner : String) : List (FlatPort α) :=
  d.ports.filter (·.owner == owner)

def port? (d : Diagram α) (owner id : String) : Option (FlatPort α) :=
  d.ports.find? fun p => p.owner == owner && p.id == id

/-- Parent of a node; no node and an unknown node count as roots. -/
def parentOf (d : Diagram α) (id : Option String) : Option String :=
  (id.bind d.node?).bind (·.parent)

/-- Move a node and all that lies below it by one vector, each as often as it is listed. -/
def translate [Scalar α] (d : Diagram α) (id : String) (dx dy : α) : Diagram α :=
  match d.node? id with
  | none => d
  | some n =>
    (n :: d.descendants id).foldl
      (fun moved m => moved.modifyNode m.id fun k => { k with x := k.x + dx, y := k.y + dy }) d

end Diagram

end ComponentDiagram
