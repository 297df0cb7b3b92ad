import ComponentDiagram.Layout.Anchor
import ComponentDiagram.Layout.Grid
import ComponentDiagram.Layout.Sizing

/-! Layout of a diagram: every root is sized with all that lies below it, and then moved as a whole,
pinned roots to their positions, anchored ones to their ports, all others onto the grid. -/
namespace ComponentDiagram.Layout

variable {α : Type} [Scalar α]

/-- Boxes so far, and the roots that are in their final place. -/
structure Placement (α : Type) where
  boxes : Boxes α
  placed : List String := []

/-- Move a root with all that lies below it so that its box becomes the target. -/
def Placement.place (d : Diagram α) (p : Placement α) (id : String) (target : Box α) :
    Placement α :=
  match p.boxes.get? id with
  | some box =>
    { boxes := shift d id p.boxes (target.x - box.x) (target.y - box.y)
      placed := p.placed ++ [id] }
  | none => p

def Placement.placePinned (d : Diagram α) (p : Placement α) (root : FlatNode α) : Placement α :=
  match p.boxes.get? root.id with
  | some box => p.place d root.id (box.moveTo root.x root.y)
  | none => p

/-- Place a root at its port, clear of all that is placed: none if it slides on forever. -/
def Placement.placeAnchored (d : Diagram α) (config : Config α) (p : Placement α)
    (anchor : Anchor α) : Option (Placement α) :=
  match p.boxes.get? anchor.node, p.boxes.get? anchor.owner with
  | some box, some owner =>
    let side := anchor.port.side
    let target := standOff config side (portPoint owner side anchor.port.offset) box
    (slideClear config side (p.placed.filterMap p.boxes.get?) target).map
      (p.place d anchor.node)
  | _, _ => some p

/-- Roots without a position and without an anchor. -/
def griddedRoots (roots : List (FlatNode α)) (anchors : Anchors α) : List (FlatNode α) :=
  roots.filter fun r => !r.pinned && !anchors.has r.id

/-- Move all roots to their final places: the pinned ones, then the grid, then the anchored ones. -/
def placeRoots (d : Diagram α) (config : Config α) (boxes : Boxes α) : Option (Boxes α) :=
  let roots := d.roots
  let anchors := (resolveAnchors d roots).anchors
  let gridded := (griddedRoots roots anchors).map (·.id)
  let pinned := (roots.filter (·.pinned)).foldl (Placement.placePinned d) { boxes }
  let cells := gridPositions config (gridded.filterMap boxes.get?)
  let withGrid := (gridded.zip cells).foldl (fun p (id, cell) => p.place d id cell) pinned
  (anchors.foldlM (Placement.placeAnchored d config) withGrid).map (·.boxes)

/-- Boxes of all roots and of all that lies below them, each root around the origin. -/
def sizeRoots (d : Diagram α) (config : Config α) : Boxes α :=
  d.roots.foldl
    (fun boxes root => (sizeSubtree d config Scalar.zero Scalar.zero root.id boxes).1) []

/-- The box of every node: none if a root slides on forever. -/
def compute (d : Diagram α) (config : Config α) : Option (Boxes α) :=
  placeRoots d config (sizeRoots d config)

/-- Write boxes into the nodes that have one. -/
def apply (d : Diagram α) (boxes : Boxes α) : Diagram α :=
  let update (n : FlatNode α) : FlatNode α :=
    match boxes.get? n.id with
    | some b => { n with x := b.x, y := b.y, width := some b.width, height := some b.height }
    | none => n
  { d with nodes := d.nodes.map update }

/-- Lay a diagram out, if that ends. -/
def layout (d : Diagram α) (config : Config α) : Option (Diagram α) :=
  (compute d config).map (apply d)

/-- What laying a diagram out has to say. -/
def notes (d : Diagram α) (config : Config α) : List Note :=
  anchorNotes d d.roots ++ (compute d config).toList.map fun boxes =>
    .debug .layout s!"Laid out {boxes.length} nodes"

end ComponentDiagram.Layout
