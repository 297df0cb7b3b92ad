import ComponentDiagram.Json.Value
import ComponentDiagram.Model.Diagram

/-! Diagrams as JSON. -/
namespace ComponentDiagram.Json

def orNull {β : Type} (f : β → Value) : Option β → Value
  | some b => f b
  | none => .null

def ofNat (n : Nat) : Value := .int n

def ofNode (n : FlatNode Float) : Value :=
  .object
    [("id", .string n.id), ("label", .string n.label), ("x", .float n.x), ("y", .float n.y),
      ("width", orNull .float n.width), ("height", orNull .float n.height),
      ("parent_id", orNull .string n.parent), ("depth", ofNat n.depth),
      ("child_ids", .array (n.childIds.map .string)), ("pinned", .bool n.pinned)]

def ofPort (p : FlatPort Float) : Value :=
  .object
    [("id", .string p.id), ("node_id", .string p.owner), ("label", orNull .string p.label),
      ("side", .string p.side.name), ("offset", .float p.offset),
      ("connector_ref", orNull .string p.connectorRef)]

def ofConnector (c : Connector) : Value :=
  .object <|
    [("id", .string c.id), ("name", orNull .string c.name), ("source_id", .string c.source.node),
      ("target_id", .string c.target.node), ("source_port", orNull .string c.source.port),
      ("target_port", orNull .string c.target.port), ("label", orNull .string c.label),
      ("interface_name", orNull .string c.interfaceName), ("origin", .string c.origin.name),
      ("kind", .string c.kind.name)] ++
    match c.kind with
    | .plain arrow => [("arrow", .string arrow.text)]
    | .delegate => []
    | .interface mark => [("notation", .string mark.text)]

def ofDiagram (d : Diagram Float) : Value :=
  .object
    [("type", .string d.type.name), ("nodes", .array (d.nodes.map ofNode)),
      ("ports", .array (d.ports.map ofPort)),
      ("connectors", .array (d.connectors.map ofConnector))]

def ofDiagnostic (d : Diagnostic) : Value :=
  .object
    [("message", .string d.message), ("line", ofNat d.line), ("column", ofNat d.column),
      ("severity", .string d.severity)]

end ComponentDiagram.Json
