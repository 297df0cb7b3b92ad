import ComponentDiagram.Model.Diagram

/-! Dragging a node: it moves with all that lies below it, in both views of the diagram, and stays
where it was dropped. -/
namespace ComponentDiagram.Layout

/-- Both views of a diagram, edited in place. -/
structure Views (α : Type) where
  diagram : Diagram α
  document : Document α

/-- There is no node with an id. -/
structure MissingNode where
  id : String
deriving Repr, DecidableEq

/-- An edit of both views; what was changed before an error stays changed. -/
abbrev Edit (α : Type) := EStateM MissingNode (Views α)

variable {α : Type} [Scalar α]

/-- Move a component by a vector; one without a position takes the one of the flat view. -/
def dragComponent (d : Diagram α) (dx dy : α) (c : Component α) : Component α :=
  match c.x, c.y with
  | some x, some y => { c with x := some (x + dx), y := some (y + dy) }
  | _, _ =>
    match d.node? c.id with
    | some n => { c with x := some n.x, y := some n.y }
    | none => c

/-- Follow a drag in the nested view, given the flat view after it. -/
def dragTree (doc : Document α) (dragged : Diagram α) (id : String) (dx dy : α) : Document α :=
  doc.modify id (Tree.map (dragComponent dragged dx dy))

/-- Drag a node: move it in the flat view, pin it there, and follow in the nested view. -/
def drag (id : String) (dx dy : α) : Edit α Unit := do
  if ((← get).diagram.node? id).isNone then throw ⟨id⟩
  modify fun v => { v with diagram := v.diagram.translate id dx dy }
  modify fun v =>
    { v with diagram := v.diagram.modifyNode id fun n => { n with pinned := true } }
  modify fun v => { v with document := dragTree v.document v.diagram id dx dy }

end ComponentDiagram.Layout
