import ComponentDiagram.Build.Flatten
import ComponentDiagram.Log

/-! Routing: a connector that crosses the boundary of one component is split in two at a port on
that boundary. -/
namespace ComponentDiagram.Build

variable {α : Type} [Scalar α]

/-- A crossing of one boundary: whose boundary it is, what lies inside, and whether that is the
connector's source. -/
structure Crossing where
  boundary : String
  nested : String
  nestedIsSource : Bool
deriving Repr, DecidableEq

inductive Route
  /-- Both ends lie at one level. -/
  | straight
  /-- The ends lie at different levels, and no single boundary is between them. -/
  | distant
  | crossing (place : Crossing)
deriving Repr, DecidableEq

/-- An end at a port that nobody declared, on a component that holds others. -/
def opensContainer (d : Diagram α) (e : Endpoint) : Option (FlatNode α) := do
  let port ← e.port
  let n ← d.node? e.node
  if n.childIds.isEmpty || (d.port? e.node port).isSome then none else return n

/-- A connector of one level that ends at an undeclared port of a container crosses into its
first child. The target is looked at first. -/
def containerCrossing (d : Diagram α) (c : Connector) : Option Crossing :=
  match opensContainer d c.target with
  | some n => n.childIds.head?.map fun nested => ⟨c.target.node, nested, false⟩
  | none =>
    (opensContainer d c.source).bind fun n =>
      n.childIds.head?.map fun nested => ⟨c.source.node, nested, true⟩

/-- The boundary of the parent is the only one between the two ends. -/
def boundaryOf (d : Diagram α) (parent otherParent : Option String) (other : String) :
    Option String :=
  match parent with
  | some boundary =>
    if boundary != other && d.parentOf (some boundary) == otherParent then some boundary else none
  | none => none

def route (d : Diagram α) (c : Connector) : Route :=
  let sourceParent := d.parentOf (some c.source.node)
  let targetParent := d.parentOf (some c.target.node)
  if sourceParent = targetParent then
    match containerCrossing d c with
    | some crossing => .crossing crossing
    | none => .straight
  else match boundaryOf d sourceParent targetParent c.target.node with
    | some boundary => .crossing ⟨boundary, c.source.node, true⟩
    | none =>
      match boundaryOf d targetParent sourceParent c.source.node with
      | some boundary => .crossing ⟨boundary, c.target.node, false⟩
      | none => .distant

/-- The end of the connector that lies inside or names the boundary. -/
def innerEnd (c : Connector) (k : Crossing) : Endpoint :=
  if k.nestedIsSource then c.source else c.target

/-- The end of the connector outside the boundary. -/
def outerEnd (c : Connector) (k : Crossing) : Endpoint :=
  if k.nestedIsSource then c.target else c.source

/-- The port of a crossing is named by the inner end, or after the connector. -/
def crossingPortId (c : Connector) (k : Crossing) : String :=
  match (innerEnd c k).port.filter (· != "") with
  | some id => id
  | none => s!"port-{c.id}"

/-- The id of the port a crossing uses, and the port itself if it has to be made. A port declared
for the connector's name comes first, then one with the right id. -/
def crossingPort (d : Diagram α) (c : Connector) (k : Crossing) : String × Option (FlatPort α) :=
  let declared := (c.name.filter (· != "")).bind fun name =>
    (d.portsOf k.boundary).find? (·.connectorRef == some name)
  match declared with
  | some p => (p.id, none)
  | none =>
    let id := crossingPortId c k
    match d.port? k.boundary id with
    | some p => (p.id, none)
    | none =>
      let side := if k.nestedIsSource then Side.right else Side.left
      (id, some { id, owner := k.boundary, side, offset := Scalar.zero, label := c.label })

/-- The part outside the boundary: the connector itself, ended at the port. -/
def externalPart (c : Connector) (k : Crossing) (port : String) : Connector :=
  { c with
    origin := .crossLevel
    source := outerEnd c k
    target := ⟨k.boundary, some port⟩ }

/-- The part inside the boundary. An interface connector shows the opposite symbol there, any
other becomes a delegation. -/
def internalPart (c : Connector) (k : Crossing) (port : String) : Connector :=
  { id := s!"{c.id}-interface"
    kind := match c.kind with
      | .interface mark => .interface mark.inverted
      | _ => .delegate
    source := ⟨k.boundary, some port⟩
    target := ⟨k.nested, none⟩
    origin := .synthesized }

/-- What stands for a connector in the flat view. -/
structure Routed (α : Type) where
  connectors : List Connector
  created : Option (FlatPort α) := none
  notes : List Note := []

def routeConnector (d : Diagram α) (c : Connector) : Routed α :=
  match route d c with
  | .straight => { connectors := [c] }
  | .distant =>
    { connectors := [c]
      notes := [.debug .building
        s!"Connector {c.id} crosses levels without a single boundary, passing through"] }
  | .crossing k =>
    let (port, created) := crossingPort d c k
    let external := externalPart c k port
    let internal := internalPart c k port
    { connectors := if k.nestedIsSource then [internal, external] else [external, internal]
      created
      notes := created.toList.map fun p =>
        .debug .building s!"Created port {p.id} on {k.boundary} for connector {c.id}" }

/-- Route connectors in order; each sees the ports made for the ones before it. -/
def routeAll (d : Diagram α) : List Connector → List (Routed α)
  | [] => []
  | c :: rest =>
    let first := routeConnector d c
    first :: routeAll { d with ports := d.ports ++ first.created.toList } rest

/-- Add routed connectors and the ports made for them. -/
def addRouted (d : Diagram α) (routed : List (Routed α)) : Diagram α :=
  { d with
    ports := d.ports ++ routed.filterMap (·.created)
    connectors := d.connectors ++ routed.flatMap (·.connectors) }

/-- The flat view of a document. -/
def diagram (doc : Document α) : Diagram α :=
  addRouted (flatten doc) (routeAll (flatten doc) doc.connectors)

/-- What building the flat view of a document has to say. -/
def notes (doc : Document α) : List Note :=
  let built := diagram doc
  let counts := s!"{built.nodes.length} nodes, {built.ports.length} ports, " ++
    s!"{built.connectors.length} connectors"
  (routeAll (flatten doc) doc.connectors).flatMap (·.notes) ++
    [.debug .building s!"Built diagram: {counts}"]

end ComponentDiagram.Build
