import ComponentDiagram.Grammar.Reader
import ComponentDiagram.Text.Integer

/-! Statements of a diagram: edges, components and ports. A component holds a block, whose reader
is an argument here. -/
namespace ComponentDiagram.Grammar

namespace Reader

variable {α : Type} (input : Input)

/-- An edge starts here: one identifier, or two, and then a connector. -/
def atEdge : Reader α Bool := do
  let i := (← get).index
  let kindAt (k : Nat) := (input.token (i + k)).kind
  return kindAt 0 == .identifier &&
    ((kindAt 1).isConnector || (kindAt 1 == .identifier && (kindAt 2).isConnector))

/-- The kind of connector that a token draws. -/
def connectorKind (t : Token) : Except Failure ConnectorKind :=
  match t.kind with
  | .delegateArrow => .ok .delegate
  | .interfaceConnector =>
    match InterfaceSymbol.ofString? t.text with
    | some mark => .ok (.interface mark)
    | none => .error (.badInterface t.text)
  | _ =>
    match Arrow.ofText? t.text with
    | some arrow => .ok (.plain arrow)
    | none => .error (.unknownArrow t.text)

/-- `[interface] source connector target [: label]`; edges are numbered as they are read. -/
def edge (name : Option String) : Reader α Connector := do
  let first ← expect input .identifier "Expected source node"
  let named := (← kind input) == .identifier
  let source ← if named then advance input else pure first
  let drawn ← current input
  if !drawn.kind.isConnector then
    failAt input ("Expected connector (->, -->, ->delegate-> or interface notation) " ++
      s!"after '{source.text}'") drawn
  let _ ← advance input
  let target ← expect input .identifier "Expected target node"
  let label ← trailingLabel input
  let drawnKind ← match connectorKind drawn with
    | .ok k => pure k
    | .error e => throw e
  let made : Connector :=
    { kind := drawnKind
      id := s!"edge-{(← get).connectors.length}"
      source := Endpoint.ofString source.text
      target := Endpoint.ofString target.text
      name
      label
      interfaceName := if named then some first.text else none }
  modify fun s => { s with connectors := s.connectors ++ [made] }
  return made

/-- The number of an integer token. -/
def coordinateOf [Scalar α] (text : String) : Except Failure α :=
  match Text.signedDigits? text.toList with
  | none => .error (.malformedNumber text)
  | some (negative, digits) =>
    if (Scalar.digitLimit α).any (· < digits.length) then .error .coordinateTooLong
    else
      let size : Int := Text.digitsValue digits
      match Scalar.ofInt? (if negative then -size else size) with
      | some x => .ok x
      | none => .error .coordinateTooLarge

def coordinate [Scalar α] : Reader α α := do
  let t ← expect input .number "Expected number in coordinates"
  match coordinateOf t.text with
  | .ok x => return x
  | .error e => throw e

/-- An optional `@ x,y`. -/
def position [Scalar α] : Reader α (Option (α × α)) := do
  if (← kind input) != .atSign then return none
  let _ ← advance input
  let x ← coordinate input
  let _ ← expect input .comma "Expected ',' between coordinates"
  let y ← coordinate input
  return some (x, y)

/-- `[id] label @ x,y` and a block in braces, both of the last two optional. The component belongs
to the tree from when its block is opened, so that statements in the block find it; one that is
too deep is read all the same and then lost. -/
def component [Scalar α] (block : Reader α Unit) : Reader α (ComponentTree α) := do
  let opening ← expectKind input .leftBracket
  let id := (← expect input .identifier "Expected node ID").text
  let _ ← expect input .rightBracket s!"Expected ']' after node ID '{id}'"
  let label ← collect input [.atSign, .leftBrace, .newline, .rightBrace]
  let place ← position input
  let made : Component α := { id, label, x := place.map (·.1), y := place.map (·.2) }
  let depth := (← get).scope.length
  let attached := match input.depthLimit with
    | some limit => decide (depth < limit)
    | none => true
  if !attached then
    warn (s!"Node '{id}' exceeds maximum nesting depth of {input.depthLimit.getD 0} " ++
      "and was dropped") opening
  if (← kind input) == .leftBrace then
    let _ ← advance input
    modify fun s => { s with scope := ⟨made, [], attached⟩ :: s.scope }
    block
    let _ ← expect input .rightBrace s!"Expected '\x7d' to close node '{id}'"
    let read := ((← get).scope.head?.map (·.tree [])).getD (.node made [])
    modify State.close
    return read
  else
    if attached then
      modify (·.attach (.node made []))
    return .node made []

/-- A statement that starts with a bracket: an edge with a name, or a component. -/
def bracketStatement [Scalar α] (block : Reader α Unit) : Reader α Unit := do
  let start := (← get).index
  let _ ← expectKind input .leftBracket
  let name := (← expect input .identifier "Expected node ID or connector name").text
  let _ ← expect input .rightBracket s!"Expected ']' after '{name}'"
  if ← atEdge input then
    let _ ← edge input (some name)
  else
    modify fun s => { s with index := start }
    let _ ← component input block

/-- Where a port belongs. -/
inductive PortTarget
  /-- On the component with an id. -/
  | on (id : String)
  /-- On the innermost open component, for a connector. -/
  | inside (connector : String)

/-- `on [node]`, or `with [connector]` inside a block. -/
def portTarget (id : String) : Reader α PortTarget := do
  match ← kind input with
  | .onWord =>
    let _ ← advance input
    let _ ← expect input .leftBracket "Expected '[' after 'on'"
    let node := (← expect input .identifier "Expected node ID").text
    let _ ← expect input .rightBracket s!"Expected ']' after node ID '{node}'"
    return .on node
  | .withWord =>
    let word ← advance input
    let _ ← expect input .leftBracket "Expected '[' after 'with'"
    let connector := (← expect input .identifier "Expected connector name").text
    let _ ← expect input .rightBracket s!"Expected ']' after connector name '{connector}'"
    if (← get).scope.isEmpty then
      failAt input
        s!"'port [{id}] with [{connector}]' is only allowed inside a node block" word
    return .inside connector
  | _ => failAt input s!"Expected 'on' or 'with' after port ID '{id}'" (← current input)

/-- `port [id] on [node] side : label` or `port [id] with [connector] side : label`, the label
optional. A port on an unknown component is dropped. -/
def port : Reader α (Option (Port α)) := do
  let opening ← expectKind input .portWord
  let _ ← expect input .leftBracket "Expected '[' after 'port'"
  let id := (← expect input .identifier "Expected port ID").text
  let _ ← expect input .rightBracket s!"Expected ']' after port ID '{id}'"
  let target ← portTarget input id
  let sideToken ← expect input .side "Expected port side (left, right, top or bottom)"
  let side ← match Side.ofName? sideToken.text with
    | some side => pure side
    | none => throw (.unknownSide sideToken.text)
  let label ← trailingLabel input
  match target with
  | .inside connector =>
    let made : Port α := { id, side, label, connectorRef := some connector }
    modify fun s =>
      match s.scope with
      | frame :: outer => { s with scope := frame.addPort made :: outer }
      | [] => s
    return some made
  | .on node =>
    let made : Port α := { id, side, label }
    match (← get).addPort? node made with
    | some s =>
      set s
      return some made
    | none =>
      warn s!"Node '{node}' not found for port '{id}'" opening
      return none

/-- One statement; what starts none is dropped to the end of its line. -/
def statement [Scalar α] (block : Reader α Unit) : Reader α Unit := do
  match ← kind input with
  | .portWord => let _ ← port input
  | .leftBracket => bracketStatement input block
  | .identifier => let _ ← edge input none
  | _ => skipLine input

/-- Statements up to a closing brace or the end of input, at most `fuel` tokens deep. -/
def blockTo [Scalar α] : Nat → Reader α Unit
  | 0 => pure ()
  | fuel + 1 => do
    match ← kind input with
    | .endOfInput | .rightBrace => pure ()
    | .newline =>
      let _ ← advance input
      blockTo fuel
    | _ =>
      statement input (blockTo fuel)
      blockTo fuel

/-- Statements up to a closing brace or the end of input. Every statement takes a token, so the
number of tokens bounds them, and the blocks inside them. -/
def block [Scalar α] : Reader α Unit :=
  blockTo input (input.tokens.size + 1)

/-- `[type]` with a known diagram type starts a wrapper around the whole diagram. -/
def wrapper? : Reader α (Option DiagramType) := do
  let i := (← get).index
  let next := input.token (i + 1)
  if (input.token i).kind == .leftBracket && next.kind == .identifier then
    return DiagramType.ofName? next.text
  else
    return none

/-- A whole diagram, wrapped or not. -/
def document [Scalar α] : Reader α (Document α) := do
  skipNewlines input
  match ← wrapper? input with
  | some type =>
    let _ ← advance input
    let _ ← advance input
    let _ ← expect input .rightBracket "Expected ']' after diagram type"
    skipNewlines input
    let _ ← expect input .leftBrace s!"Expected '\x7b' to open {type.name} diagram"
    block input
    let _ ← expect input .rightBrace s!"Expected '\x7d' to close {type.name} diagram"
    skipNewlines input
    let t ← current input
    if t.kind != .endOfInput then
      failAt input "Unexpected content after diagram block" t
    return (← get).document type
  | none =>
    block input
    let t ← current input
    if t.kind == .rightBrace then
      failAt input "Unexpected '\x7d' without matching '\x7b'" t
    return (← get).document .component

end Reader

/-- Read a diagram, keeping what was gathered also where the reading fails. -/
def readInput {α : Type} [Scalar α] (input : Input) : Except Failure (Document α) × State α :=
  match Reader.document input {} with
  | .ok doc s => (.ok doc, s)
  | .error e s => (.error e, s)

/-- The diagram of a text; the file is only named in errors. -/
def parse {α : Type} [Scalar α] (text : String) (file : Option Path) :
    Except Failure (Document α) :=
  (readInput (Input.ofText text file)).1

end ComponentDiagram.Grammar
