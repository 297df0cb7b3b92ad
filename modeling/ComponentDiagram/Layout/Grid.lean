import ComponentDiagram.Layout.Box
import ComponentDiagram.Layout.Config

/-! The grid of boxes that nothing else places: as square as possible, row by row, each column as
wide and each row as high as its largest box. -/
namespace ComponentDiagram.Layout

variable {α : Type} [Scalar α]

/-- The square root, rounded down: it grows by one where the next square is reached. -/
def floorSqrt : Nat → Nat
  | 0 => 0
  | n + 1 =>
    let root := floorSqrt n
    if (root + 1) * (root + 1) ≤ n + 1 then root + 1 else root

/-- The square root of the number of boxes, rounded up. -/
def columnsFor (n : Nat) : Nat :=
  let root := floorSqrt n
  if root * root = n then root else root + 1

/-- The greatest of sizes, and at least zero. -/
def greatest (sizes : List α) : α := sizes.foldl Scalar.max Scalar.zero

/-- Where each of several stretches starts, with a gap after every one. -/
def starts (start gap : α) : List α → List α
  | [] => []
  | size :: rest => start :: starts (start + (size + gap)) gap rest

/-- Positions of boxes on the grid, in their order. -/
def gridPositions (config : Config α) (boxes : List (Box α)) : List (Box α) :=
  let columns := columnsFor boxes.length
  let rows := (boxes.length + columns - 1) / columns
  let indexed := boxes.zipIdx
  let widths := (List.range columns).map fun column =>
    greatest ((indexed.filter fun (_, i) => i % columns = column).map fun (b, _) => b.width)
  let heights := (List.range rows).map fun row =>
    greatest ((indexed.filter fun (_, i) => i / columns = row).map fun (b, _) => b.height)
  let lefts := starts config.gridStartX config.gridHorizontalSpacing widths
  let tops := starts config.gridStartY config.gridVerticalSpacing heights
  indexed.map fun (b, i) =>
    b.moveTo (lefts.getD (i % columns) config.gridStartX + Scalar.half b.width)
      (tops.getD (i / columns) config.gridStartY + Scalar.half b.height)

end ComponentDiagram.Layout
