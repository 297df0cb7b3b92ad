/-! The kinds of diagram, and the sides of a box that a port can sit on. -/
namespace ComponentDiagram

inductive DiagramType
  | component
  | classes
  | sequence
  | activity
deriving Repr, DecidableEq, Inhabited

namespace DiagramType

def name : DiagramType → String
  | component => "uml2.5-component"
  | classes => "uml2.5-class"
  | sequence => "uml2.5-sequence"
  | activity => "uml2.5-activity"

def ofName? (text : String) : Option DiagramType :=
  [component, classes, sequence, activity].find? (·.name == text)

end DiagramType

inductive Side
  | left
  | right
  | top
  | bottom
deriving Repr, DecidableEq, Inhabited

namespace Side

def name : Side → String
  | left => "left"
  | right => "right"
  | top => "top"
  | bottom => "bottom"

def ofName? (text : String) : Option Side :=
  [left, right, top, bottom].find? (·.name == text)

/-- Left and right ports slide up and down. -/
def isVertical : Side → Bool
  | left | right => true
  | top | bottom => false

end Side

end ComponentDiagram
