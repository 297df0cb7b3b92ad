import ComponentDiagram.Numeric.Scalar

/-! The settings of a layout, all of them distances. -/
namespace ComponentDiagram.Layout

structure Config (α : Type) where
  leafWidth : α
  leafHeight : α
  minContainerWidth : α
  minContainerHeight : α
  /-- Free space left and right of the children. -/
  sidePadding : α
  /-- Room for a container's label, above its children. -/
  labelBand : α
  /-- Free space above and below the children. -/
  verticalPadding : α
  childSpacing : α
  gridStartX : α
  gridStartY : α
  gridHorizontalSpacing : α
  gridVerticalSpacing : α
  /-- Distance from a port to the box anchored at it. -/
  portStandoff : α
deriving Repr, BEq

/-- One setting. -/
inductive Setting
  | leafWidth
  | leafHeight
  | minContainerWidth
  | minContainerHeight
  | sidePadding
  | labelBand
  | verticalPadding
  | childSpacing
  | gridStartX
  | gridStartY
  | gridHorizontalSpacing
  | gridVerticalSpacing
  | portStandoff
deriving Repr, DecidableEq, Inhabited

namespace Setting

def all : List Setting :=
  [leafWidth, leafHeight, minContainerWidth, minContainerHeight, sidePadding, labelBand,
    verticalPadding, childSpacing, gridStartX, gridStartY, gridHorizontalSpacing,
    gridVerticalSpacing, portStandoff]

def name : Setting → String
  | leafWidth => "leaf_width"
  | leafHeight => "leaf_height"
  | minContainerWidth => "min_container_width"
  | minContainerHeight => "min_container_height"
  | sidePadding => "side_padding"
  | labelBand => "label_band"
  | verticalPadding => "vertical_padding"
  | childSpacing => "child_spacing"
  | gridStartX => "grid_start_x"
  | gridStartY => "grid_start_y"
  | gridHorizontalSpacing => "grid_horizontal_spacing"
  | gridVerticalSpacing => "grid_vertical_spacing"
  | portStandoff => "port_standoff"

def ofName? (text : String) : Option Setting := all.find? (·.name == text)

end Setting

namespace Config

variable {α : Type}

def get (c : Config α) : Setting → α
  | .leafWidth => c.leafWidth
  | .leafHeight => c.leafHeight
  | .minContainerWidth => c.minContainerWidth
  | .minContainerHeight => c.minContainerHeight
  | .sidePadding => c.sidePadding
  | .labelBand => c.labelBand
  | .verticalPadding => c.verticalPadding
  | .childSpacing => c.childSpacing
  | .gridStartX => c.gridStartX
  | .gridStartY => c.gridStartY
  | .gridHorizontalSpacing => c.gridHorizontalSpacing
  | .gridVerticalSpacing => c.gridVerticalSpacing
  | .portStandoff => c.portStandoff

/-- The settings that a rule gives. -/
def ofRule (rule : Setting → α) : Config α where
  leafWidth := rule .leafWidth
  leafHeight := rule .leafHeight
  minContainerWidth := rule .minContainerWidth
  minContainerHeight := rule .minContainerHeight
  sidePadding := rule .sidePadding
  labelBand := rule .labelBand
  verticalPadding := rule .verticalPadding
  childSpacing := rule .childSpacing
  gridStartX := rule .gridStartX
  gridStartY := rule .gridStartY
  gridHorizontalSpacing := rule .gridHorizontalSpacing
  gridVerticalSpacing := rule .gridVerticalSpacing
  portStandoff := rule .portStandoff

theorem get_ofRule (rule : Setting → α) (s : Setting) : (ofRule rule).get s = rule s := by
  cases s <;> rfl

theorem ofRule_get (c : Config α) : ofRule c.get = c := rfl

/-- The settings with one changed. -/
def set (c : Config α) (s : Setting) (x : α) : Config α :=
  ofRule fun t => if t = s then x else c.get t

end Config

/-- The value of a setting that nobody changes. -/
def Setting.standard : Setting → Nat
  | leafWidth => 150
  | leafHeight => 80
  | minContainerWidth => 200
  | minContainerHeight => 120
  | sidePadding => 50
  | labelBand => 35
  | verticalPadding => 50
  | childSpacing => 40
  | gridStartX => 50
  | gridStartY => 50
  | gridHorizontalSpacing => 200
  | gridVerticalSpacing => 150
  | portStandoff => 400

def Config.standard {α : Type} [Scalar α] : Config α :=
  .ofRule fun s => Scalar.ofNat s.standard

end ComponentDiagram.Layout
