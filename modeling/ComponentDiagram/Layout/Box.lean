import ComponentDiagram.Numeric.Scalar

/-! Boxes of a layout, given by their centre and their size. -/
namespace ComponentDiagram.Layout

structure Box (α : Type) where
  x : α
  y : α
  width : α
  height : α
deriving Repr, BEq, DecidableEq

namespace Box

variable {α : Type} [Scalar α]

def left (b : Box α) : α := b.x - Scalar.half b.width

def right (b : Box α) : α := b.x + Scalar.half b.width

def top (b : Box α) : α := b.y - Scalar.half b.height

def bottom (b : Box α) : α := b.y + Scalar.half b.height

def translate (b : Box α) (dx dy : α) : Box α := { b with x := b.x + dx, y := b.y + dy }

def moveTo (b : Box α) (x y : α) : Box α := { b with x, y }

/-- The insides overlap; boxes that only touch do not intersect. -/
def intersects (a b : Box α) : Bool :=
  decide (a.left < b.right) && decide (b.left < a.right) &&
  decide (a.top < b.bottom) && decide (b.top < a.bottom)

/-- `b` fits into `a` made smaller by the insets on every side. -/
def contains (a b : Box α) (insetX insetY : α) : Bool :=
  decide (a.left + insetX ≤ b.left) && decide (b.right ≤ a.right - insetX) &&
  decide (a.top + insetY ≤ b.top) && decide (b.bottom ≤ a.bottom - insetY)

end Box

/-- Left, top, right and bottom edge of an area. -/
structure Bounds (α : Type) where
  left : α
  top : α
  right : α
  bottom : α
deriving Repr, BEq, DecidableEq

variable {α : Type} [Scalar α]

def Box.bounds (b : Box α) : Bounds α := ⟨b.left, b.top, b.right, b.bottom⟩

/-- The least bounds around both. -/
def Bounds.union (a b : Bounds α) : Bounds α :=
  ⟨Scalar.min a.left b.left, Scalar.min a.top b.top,
    Scalar.max a.right b.right, Scalar.max a.bottom b.bottom⟩

/-- The least bounds around a box and others. -/
def unionBounds (first : Box α) (others : List (Box α)) : Bounds α :=
  others.foldl (fun bounds b => bounds.union b.bounds) first.bounds

end ComponentDiagram.Layout
