import ComponentDiagram.Layout.Boxes
import ComponentDiagram.Layout.Config
import ComponentDiagram.Log
import ComponentDiagram.Model.Diagram

/-! Anchors: a root at the outer end of a boundary crossing is placed at the port it is joined to,
and slides along that side of its owner until it is clear of all that is placed. -/
namespace ComponentDiagram.Layout

/-- A root that belongs at a port of another root. -/
structure Anchor (α : Type) where
  node : String
  owner : String
  port : FlatPort α
deriving Repr, BEq

/-- Anchors in the order in which they were found, at most one for a node. -/
abbrev Anchors (α : Type) := List (Anchor α)

def Anchors.get? {α : Type} (anchors : Anchors α) (node : String) : Option (Anchor α) :=
  anchors.find? (·.node == node)

def Anchors.has {α : Type} (anchors : Anchors α) (node : String) : Bool :=
  (anchors.get? node).isSome

/-- A search that remembers the ports it missed, by owner, port and root. -/
structure AnchorSearch (α : Type) where
  anchors : Anchors α := []
  missed : List (String × String × String) := []

/-- A root that could be anchored, the root it would be anchored to, and the port named there. -/
structure AnchorRequest where
  free : String
  owner : String
  port : Option String
deriving Repr, DecidableEq

/-- The two ends of a crossing connector, each as the free one. -/
def anchorRequests (c : Connector) : List AnchorRequest :=
  if !c.isCrossLevel || c.source.node == c.target.node then []
  else
    [⟨c.source.node, c.target.node, c.target.port⟩,
      ⟨c.target.node, c.source.node, c.source.port⟩]

variable {α : Type} [Scalar α]

/-- Follow one request. Only an unpinned root is anchored, only to another root's port, and only
once. -/
def AnchorSearch.follow (d : Diagram α) (roots : List (FlatNode α)) (search : AnchorSearch α)
    (request : AnchorRequest) : AnchorSearch α :=
  match request.port with
  | none => search
  | some port =>
    let isRoot (id : String) := roots.any (·.id == id)
    let isPinned := roots.any fun r => r.id == request.free && r.pinned
    if search.anchors.has request.free || isPinned then search
    else if !isRoot request.free || !isRoot request.owner then search
    else match d.port? request.owner port with
      | some p => { search with anchors := search.anchors ++ [⟨request.free, request.owner, p⟩] }
      | none => { search with missed := search.missed ++ [(request.owner, port, request.free)] }

/-- All anchors that the connectors ask for. -/
def findAnchors (d : Diagram α) (roots : List (FlatNode α)) : AnchorSearch α :=
  (d.connectors.flatMap anchorRequests).foldl (AnchorSearch.follow d roots) {}

/-- The anchors of a node and of its owners, the last owner first, unless they lead into a circle
or back to a node that is being visited. What is settled already is not repeated. -/
def settle (candidates : Anchors α) :
    Nat → List String → String → Anchors α → Option (Anchors α)
  | 0, _, _, _ => none
  | fuel + 1, visiting, node, settled =>
    if settled.has node then some settled
    else match candidates.get? node with
      | none => none
      | some anchor =>
        if visiting.contains anchor.owner then none
        else if candidates.has anchor.owner then
          match settle candidates fuel (node :: visiting) anchor.owner settled with
          | some before => some (before ++ [anchor])
          | none => none
        else some (settled ++ [anchor])

/-- Anchors in an order that places every owner before what is anchored to it, and the nodes that
were left out because they lead into a circle. -/
structure AnchorOrder (α : Type) where
  anchors : Anchors α := []
  circular : List String := []

/-- A path of owners visits every candidate at most once. -/
def orderAnchors (candidates : Anchors α) : AnchorOrder α :=
  candidates.foldl
    (fun order anchor =>
      match settle candidates (candidates.length + 1) [] anchor.node order.anchors with
      | some anchors => { order with anchors }
      | none => { order with circular := order.circular ++ [anchor.node] })
    {}

def resolveAnchors (d : Diagram α) (roots : List (FlatNode α)) : AnchorOrder α :=
  orderAnchors (findAnchors d roots).anchors

/-- What the search for anchors has to say. -/
def anchorNotes (d : Diagram α) (roots : List (FlatNode α)) : List Note :=
  let search := findAnchors d roots
  search.missed.map (fun (owner, port, node) =>
    .debug .placement s!"Port {owner}.{port} not found, {node} goes to the grid") ++
  (orderAnchors search.anchors).circular.map fun node =>
    .debug .placement s!"Anchor cycle through {node}, placing it on the grid"

/-- Where a port sits on the border of its owner. -/
def portPoint (owner : Box α) (side : Side) (offset : α) : α × α :=
  match side with
  | .left => (owner.left, owner.y + offset)
  | .right => (owner.right, owner.y + offset)
  | .top => (owner.x + offset, owner.top)
  | .bottom => (owner.x + offset, owner.bottom)

/-- A box at a distance from a point, in the direction of a side. -/
def standOff (config : Config α) (side : Side) (point : α × α) (box : Box α) : Box α :=
  let (x, y) := point
  match side with
  | .left => box.moveTo (x - config.portStandoff - Scalar.half box.width) y
  | .right => box.moveTo (x + config.portStandoff + Scalar.half box.width) y
  | .top => box.moveTo x (y - config.portStandoff - Scalar.half box.height)
  | .bottom => box.moveTo x (y + config.portStandoff + Scalar.half box.height)

/-- One slide past a box that is in the way: down along a left or right side, to the right along
a top or bottom side. -/
def slidePast (config : Config α) (side : Side) (box blocker : Box α) : Box α :=
  if side.isVertical then
    box.moveTo box.x (blocker.bottom + config.childSpacing + Scalar.half box.height)
  else
    box.moveTo (blocker.right + config.childSpacing + Scalar.half box.width) box.y

/-- Slide a box past what is in its way, each time the first such box, until nothing is: none if
something still is after that many slides. -/
def slideTo (config : Config α) (side : Side) (placed : List (Box α)) :
    Nat → Box α → Option (Box α)
  | 0, box => if placed.any (box.intersects ·) then none else some box
  | slides + 1, box =>
    match placed.find? (box.intersects ·) with
    | some blocker => slideTo config side placed slides (slidePast config side box blocker)
    | none => some box

/-- Slide a box until it overlaps no placed one: none if that never ends. Where a slide past a box
ends depends on that box alone, so a box that is met again is met forever. -/
def slideClear (config : Config α) (side : Side) (placed : List (Box α)) (box : Box α) :
    Option (Box α) :=
  slideTo config side placed placed.length box

end ComponentDiagram.Layout
