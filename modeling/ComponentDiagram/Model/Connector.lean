import ComponentDiagram.Source.InterfaceSymbol

/-! Connectors between components: plain arrows, delegations and interface connectors. -/
namespace ComponentDiagram

/-- The two spellings of a plain arrow. -/
inductive Arrow
  | short
  | long
deriving Repr, DecidableEq, Inhabited

def Arrow.text : Arrow → String
  | short => "->"
  | long => "-->"

def Arrow.ofText? (text : String) : Option Arrow :=
  if text = "->" then some .short else if text = "-->" then some .long else none

inductive ConnectorKind
  | plain (arrow : Arrow)
  | delegate
  | interface (mark : InterfaceSymbol)
deriving DecidableEq

namespace ConnectorKind

def name : ConnectorKind → String
  | plain _ => "plain"
  | delegate => "delegate"
  | interface _ => "interface"

/-- The kind as it is written between two ends. -/
def text : ConnectorKind → String
  | plain arrow => arrow.text
  | delegate => "->delegate->"
  | interface mark => mark.text

end ConnectorKind

/-- Written by the author, an author's edge that now ends at a boundary port, or added by the
builder. -/
inductive Origin
  | declared
  | crossLevel
  | synthesized
deriving Repr, DecidableEq, Inhabited

def Origin.name : Origin → String
  | declared => "declared"
  | crossLevel => "cross_level"
  | synthesized => "synthesized"

def Origin.ofName? (text : String) : Option Origin :=
  [Origin.declared, .crossLevel, .synthesized].find? (·.name == text)

/-- One end of a connector: a component, or a port of it. -/
structure Endpoint where
  node : String
  port : Option String := none
deriving Repr, DecidableEq, Inhabited

/-- An end is written `node` or `node.port`: the first dot divides, and nothing after it means no
port. -/
def Endpoint.ofString (text : String) : Endpoint :=
  let node := text.toList.takeWhile (· != '.')
  let port := (text.toList.dropWhile (· != '.')).drop 1
  ⟨String.ofList node, if port.isEmpty then none else some (String.ofList port)⟩

structure Connector where
  kind : ConnectorKind
  id : String
  source : Endpoint
  target : Endpoint
  name : Option String := none
  label : Option String := none
  interfaceName : Option String := none
  origin : Origin := .declared
deriving DecidableEq

namespace Connector

/-- The connector takes part in a boundary crossing. -/
def isCrossLevel (c : Connector) : Bool := c.origin != .declared

/-- The builder added the connector. -/
def isAutoGenerated (c : Connector) : Bool := c.origin == .synthesized

def isDelegate (c : Connector) : Bool := c.kind == .delegate

/-- The interface symbol of an interface connector. -/
def symbol? (c : Connector) : Option InterfaceSymbol :=
  match c.kind with
  | .interface mark => some mark
  | _ => none

def stereotype? (c : Connector) : Option String :=
  if c.isDelegate then some "delegate" else none

end Connector

end ComponentDiagram
