import ComponentDiagram.Model.Document
import ComponentDiagram.Numeric.Scalar
import ComponentDiagram.Text.Lines

/-! The canonical source of a document: the components with their ports inside, an empty line, and
the connectors. -/
namespace ComponentDiagram.Print

variable {α : Type} [Scalar α]

/-- The nearest integer, in plain digits. -/
def coordinate (x : α) : Except Unbounded String :=
  (Scalar.nearestInt x).map fun n => toString n

/-- ` @ x,y`, as it follows the label of a component. -/
def placeText (x y : α) : Except Unbounded String := do
  let across ← coordinate x
  let down ← coordinate y
  return s!" @ {across},{down}"

/-- Four spaces for every level. -/
def indent (depth : Nat) : String := String.ofList (List.replicate (4 * depth) ' ')

/-- A label after its colon; white space at the end is dropped. -/
def labelText (label : Option String) : String :=
  match label with
  | some text => String.ofList (Text.trimEnd s!" : {text}".toList)
  | none => ""

/-- A text that may be absent; the empty text counts as absent. -/
def nonempty? (text : Option String) : Option String := text.filter (· != "")

/-- A port is declared on its owner, or for the connector that it was declared for. -/
def portText (owner : String) (port : Port α) : String :=
  let place := match nonempty? port.connectorRef with
    | some connector => s!"with [{connector}]"
    | none => s!"on [{owner}]"
  s!"port [{port.id}] {place} {port.side.name}" ++ labelText port.label

def endpointText (e : Endpoint) : String :=
  match nonempty? e.port with
  | some port => s!"{e.node}.{port}"
  | none => e.node

def connectorText (c : Connector) : String :=
  let name := (nonempty? c.name).toList.map fun name => s!"[{name}]"
  let ends := [endpointText c.source, c.kind.text, endpointText c.target]
  " ".intercalate (name ++ (nonempty? c.interfaceName).toList ++ ends) ++ labelText c.label

/-- A component without its block. Only a complete position is written. -/
def headText (c : Component α) : Except Unbounded String := do
  let place ← match c.x, c.y with
    | some x, some y => placeText x y
    | _, _ => pure ""
  let label := if c.label = "" then "" else " " ++ c.label
  return s!"[{c.id}]{label}{place}"

mutual

/-- The lines of a component at a depth. It has a block only if it holds something. -/
def treeLines (depth : Nat) : ComponentTree α → Except Unbounded (List String)
  | .node c children => do
    let head ← headText c
    if children.isEmpty && c.ports.isEmpty then
      return [indent depth ++ head]
    let inside ← forestLines (depth + 1) children
    let ports := c.ports.map fun p => indent (depth + 1) ++ portText c.id p
    return [s!"{indent depth}{head} \x7b"] ++ ports ++ inside ++ [indent depth ++ "\x7d"]

def forestLines (depth : Nat) : List (ComponentTree α) → Except Unbounded (List String)
  | [] => return []
  | t :: ts => do
    let first ← treeLines depth t
    let others ← forestLines depth ts
    return first ++ others

end

def documentLines (doc : Document α) : Except Unbounded (List String) := do
  let inside ← forestLines 1 doc.roots
  let gap := if doc.roots.isEmpty || doc.connectors.isEmpty then [] else [""]
  let edges := doc.connectors.map fun c => indent 1 ++ connectorText c
  return [s!"[{doc.type.name}] \x7b"] ++ inside ++ gap ++ edges ++ ["\x7d"]

/-- The canonical source of a document. A position that is no number has none. -/
def document (doc : Document α) : Except Unbounded String := do
  return "\n".intercalate (← documentLines doc) ++ "\n"

end ComponentDiagram.Print
