import ComponentDiagram.Model.Connector
import ComponentDiagram.Model.Kinds
import ComponentDiagram.Model.Tree
import ComponentDiagram.Numeric.Scalar

/-! The nested view of a diagram, as its author wrote it: components own their ports and the
components inside them, connectors stand beside the tree. -/
namespace ComponentDiagram

structure Port (α : Type) where
  id : String
  side : Side
  label : Option String := none
  /-- Distance from the middle of the side. -/
  offset : Option α := none
  /-- The connector that the port was declared for. -/
  connectorRef : Option String := none
deriving Repr, BEq, Inhabited

/-- A box of the diagram without the boxes inside it; `x` and `y` are its centre. -/
structure Component (α : Type) where
  id : String
  label : String := ""
  x : Option α := none
  y : Option α := none
  width : Option α := none
  height : Option α := none
  ports : List (Port α) := []
deriving Repr, BEq, Inhabited

abbrev ComponentTree (α : Type) := Tree (Component α)

/-- A problem that did not stop the reading; the construct at that place was dropped. -/
structure Diagnostic where
  message : String
  line : Nat
  column : Nat
  severity : String := "warning"
deriving Repr, DecidableEq, Inhabited

def Diagnostic.display (d : Diagnostic) : String :=
  s!"{d.line}:{d.column}: {d.severity}: {d.message}"

structure Document (α : Type) where
  type : DiagramType := .component
  roots : List (ComponentTree α) := []
  connectors : List Connector := []
  diagnostics : List Diagnostic := []
deriving BEq

namespace Document

variable {α : Type}

/-- The first component in pre-order with the id, with all that it contains. -/
def find? (doc : Document α) (id : String) : Option (ComponentTree α) :=
  Tree.find? (·.id == id) doc.roots

/-- The first component in pre-order that directly contains one with the id. -/
def parent? (doc : Document α) (id : String) : Option (ComponentTree α) :=
  (Tree.forestSubtrees doc.roots).find? fun t => t.children.any (·.value.id == id)

/-- All components in pre-order. -/
def components (doc : Document α) : List (Component α) := Tree.values doc.roots

/-- Change the first component in pre-order with the id together with all that it contains. -/
def modify (doc : Document α) (id : String) (change : ComponentTree α → ComponentTree α) :
    Document α :=
  { doc with roots := (Tree.forestModifyFirst? (·.id == id) change doc.roots).getD doc.roots }

/-- Move a component and all that it contains by one vector; a missing coordinate counts as zero. -/
def translate [Scalar α] (doc : Document α) (id : String) (dx dy : α) : Document α :=
  doc.modify id <| Tree.map fun c =>
    { c with x := some (c.x.getD Scalar.zero + dx), y := some (c.y.getD Scalar.zero + dy) }

end Document

end ComponentDiagram
