import ComponentDiagram.Layout.Boxes
import ComponentDiagram.Layout.Config
import ComponentDiagram.Model.Diagram

/-! Sizes: children are stacked under one another, and a container takes the room of its children
and their padding. -/
namespace ComponentDiagram.Layout

variable {α : Type} [Scalar α]

/-- Move the boxes of a node and of all that lies below it. -/
def shift (d : Diagram α) (id : String) (boxes : Boxes α) (dx dy : α) : Boxes α :=
  if dx == Scalar.zero && dy == Scalar.zero then boxes
  else
    let ids := id :: (d.descendants id).map (·.id)
    ids.foldl (fun moved key => moved.translate key dx dy) boxes

/-- The container around bounds: padding on all sides, room for the label above, and no less than
the minimum. Height that the minimum adds is split evenly. -/
def containerAround (config : Config α) (inner : Bounds α) : Box α :=
  let width := Scalar.max config.minContainerWidth
    (inner.right - inner.left + Scalar.two * config.sidePadding)
  let height := Scalar.max config.minContainerHeight
    (inner.bottom - inner.top + Scalar.two * config.verticalPadding + config.labelBand)
  let paddedTop := inner.top - config.verticalPadding - config.labelBand
  let paddedBottom := inner.bottom + config.verticalPadding
  ⟨Scalar.half (inner.left + inner.right), Scalar.half (paddedTop + paddedBottom), width, height⟩

/-- The container around boxes. -/
def enclose (config : Config α) (first : Box α) (others : List (Box α)) : Box α :=
  containerAround config (unionBounds first others)

/-- The box of a component that holds nothing. -/
def leafBox (config : Config α) (x y : α) : Box α := ⟨x, y, config.leafWidth, config.leafHeight⟩

/-- A stack of children that grows downward. -/
structure Stack (α : Type) where
  boxes : Boxes α
  last : Option (Box α) := none

/-- Put one more child under a stack: its own layout, moved so that its centre is at `x` and its top
below the last child, or at `y`. -/
def Stack.push (d : Diagram α) (config : Config α) (x y : α)
    (size : String → Boxes α → Boxes α × Box α) (stack : Stack α) (id : String) : Stack α :=
  let (boxes, box) := size id stack.boxes
  let centre := match stack.last with
    | some above => above.bottom + config.childSpacing + Scalar.half box.height
    | none => y + Scalar.half box.height
  let moved := shift d id boxes (x - box.x) (centre - box.y)
  ⟨moved, moved.get? id⟩

/-- Boxes of a node and of what lies below it to a bounded depth, around a temporary origin. -/
def sizeTo (d : Diagram α) (config : Config α) (x y : α) :
    Nat → String → Boxes α → Boxes α × Box α
  | 0, id, boxes => (boxes.put id (leafBox config x y), leafBox config x y)
  | depth + 1, id, boxes =>
    let ids := (d.childrenOf id).map (·.id)
    let push := Stack.push d config x y (sizeTo d config x y depth)
    let stacked := (ids.foldl push ⟨boxes, none⟩).boxes
    let box := match ids.filterMap stacked.get? with
      | first :: others => enclose config first others
      | [] => leafBox config x y
    (stacked.put id box, box)

/-- Boxes of a node and of all that lies below it, around a temporary origin. -/
def sizeSubtree (d : Diagram α) (config : Config α) (x y : α) (id : String) (boxes : Boxes α) :
    Boxes α × Box α :=
  sizeTo d config x y (d.nodes.length + 1) id boxes

end ComponentDiagram.Layout
