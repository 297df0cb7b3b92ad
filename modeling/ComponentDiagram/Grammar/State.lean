import ComponentDiagram.Model.Document

/-! What a reader has gathered: the finished trees, the components that are still open, and the
connectors and diagnostics so far. -/
namespace ComponentDiagram.Grammar

/-- A component whose block is being read. -/
structure Frame (α : Type) where
  component : Component α
  /-- The finished components inside it. -/
  children : List (ComponentTree α) := []
  /-- It belongs to the component around it, or to the roots; else it is lost when it closes. -/
  attached : Bool := true
deriving Inhabited

structure State (α : Type) where
  /-- Index of the current token. -/
  index : Nat := 0
  /-- The open components, the innermost first. -/
  scope : List (Frame α) := []
  roots : List (ComponentTree α) := []
  connectors : List Connector := []
  diagnostics : List Diagnostic := []
deriving Inhabited

variable {α : Type}

/-- An open component with the finished and the open ones inside it. -/
def Frame.tree (frame : Frame α) (inner : List (ComponentTree α)) : ComponentTree α :=
  .node frame.component (frame.children ++ inner)

/-- What an open component hands to the one around it. -/
def Frame.handed (frame : Frame α) (inner : List (ComponentTree α)) : List (ComponentTree α) :=
  if frame.attached then [frame.tree inner] else []

/-- The open components as trees, the innermost first. -/
def openTrees (inner : List (ComponentTree α)) : List (Frame α) → List (ComponentTree α)
  | [] => []
  | frame :: outer => frame.tree inner :: openTrees (frame.handed inner) outer

/-- What the open components hand to the roots. -/
def openRoot (inner : List (ComponentTree α)) : List (Frame α) → List (ComponentTree α)
  | [] => inner
  | frame :: outer => openRoot (frame.handed inner) outer

namespace State

/-- All trees so far, the open ones included. -/
def forest (state : State α) : List (ComponentTree α) :=
  state.roots ++ openRoot [] state.scope

def document (state : State α) (type : DiagramType) : Document α :=
  { type
    roots := state.forest
    connectors := state.connectors
    diagnostics := state.diagnostics }

/-- Hand a finished component to the innermost open one, or to the roots. -/
def attach (state : State α) (tree : ComponentTree α) : State α :=
  match state.scope with
  | frame :: outer =>
    { state with scope := { frame with children := frame.children ++ [tree] } :: outer }
  | [] => { state with roots := state.roots ++ [tree] }

/-- Leave the innermost open component. -/
def close (state : State α) : State α :=
  match state.scope with
  | frame :: outer =>
    let left := { state with scope := outer }
    if frame.attached then left.attach (frame.tree []) else left
  | [] => state

/-- The component that an id names: the open ones from the innermost out, then all others in
pre-order. -/
def find? (state : State α) (id : String) : Option (ComponentTree α) :=
  if id = "" then none
  else match (openTrees [] state.scope).find? (·.value.id == id) with
    | some tree => some tree
    | none => Tree.find? (·.id == id) state.forest

end State

def Frame.addPort (port : Port α) (frame : Frame α) : Frame α :=
  { frame with component.ports := frame.component.ports ++ [port] }

/-- Add a port to the innermost open component with the id. -/
def addToOpen? (id : String) (port : Port α) : List (Frame α) → Option (List (Frame α))
  | [] => none
  | frame :: outer =>
    if frame.component.id == id then some (frame.addPort port :: outer)
    else (addToOpen? id port outer).map (frame :: ·)

/-- Add a port to the first finished component in pre-order with the id. -/
def addToFinished? (id : String) (port : Port α) :
    List (ComponentTree α) → Option (List (ComponentTree α)) :=
  Tree.forestModifyFirst? (·.id == id)
    (Tree.withValue fun c => { c with ports := c.ports ++ [port] })

/-- Add a port to the first finished component inside the open ones, given from the outermost in. -/
def addInside? (id : String) (port : Port α) : List (Frame α) → Option (List (Frame α))
  | [] => none
  | frame :: inner =>
    if frame.attached then
      match addToFinished? id port frame.children with
      | some children => some ({ frame with children } :: inner)
      | none => (addInside? id port inner).map (frame :: ·)
    else none

/-- Add a port to the component that an id names. -/
def State.addPort? (state : State α) (id : String) (port : Port α) : Option (State α) :=
  if id = "" then none
  else match addToOpen? id port state.scope with
    | some scope => some { state with scope }
    | none =>
      match addToFinished? id port state.roots with
      | some roots => some { state with roots }
      | none =>
        (addInside? id port state.scope.reverse).map fun frames =>
          { state with scope := frames.reverse }

end ComponentDiagram.Grammar
