import ComponentDiagram.Model.Diagram

/-! From the nested view to the flat one: nodes and ports in pre-order. -/
namespace ComponentDiagram.Build

variable {α : Type} [Scalar α]

/-- The entry of a component; it is pinned if the author gave both coordinates. -/
def flatNode (parent : Option String) (depth : Nat) (c : Component α)
    (children : List (ComponentTree α)) : FlatNode α :=
  { id := c.id
    label := c.label
    x := c.x.getD Scalar.zero
    y := c.y.getD Scalar.zero
    width := c.width
    height := c.height
    parent
    depth
    childIds := children.map (·.value.id)
    pinned := c.x.isSome && c.y.isSome }

mutual

def flattenTree (parent : Option String) (depth : Nat) : ComponentTree α → List (FlatNode α)
  | .node c children =>
    flatNode parent depth c children :: flattenForest (some c.id) (depth + 1) children

def flattenForest (parent : Option String) (depth : Nat) :
    List (ComponentTree α) → List (FlatNode α)
  | [] => []
  | t :: ts => flattenTree parent depth t ++ flattenForest parent depth ts

end

def flatPort (owner : String) (p : Port α) : FlatPort α :=
  { id := p.id
    owner
    side := p.side
    offset := p.offset.getD Scalar.zero
    label := p.label
    connectorRef := p.connectorRef }

/-- The flat view of a document, without its connectors. -/
def flatten (doc : Document α) : Diagram α :=
  { type := doc.type
    nodes := flattenForest none 0 doc.roots
    ports := doc.components.flatMap fun c => c.ports.map (flatPort c.id) }

end ComponentDiagram.Build
