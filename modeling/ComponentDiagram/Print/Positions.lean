import ComponentDiagram.Model.Diagram
import ComponentDiagram.Print.Document
import ComponentDiagram.Text.Lines
import ComponentDiagram.Text.Character

/-! Writing the positions of a diagram into the source it came from, line by line, and into the
nested view. -/
namespace ComponentDiagram.Print

/-- The text after a number: an optional minus sign, digits, and an optional fraction. -/
def afterNumber? (cs : List Char) : Option (List Char) :=
  let unsigned := match cs with
    | '-' :: rest => rest
    | _ => cs
  if (unsigned.takeWhile Text.isDecimalDigit).isEmpty then none
  else match unsigned.dropWhile Text.isDecimalDigit with
    | '.' :: d :: rest =>
      if Text.isDecimalDigit d then some (rest.dropWhile Text.isDecimalDigit)
      else some ('.' :: d :: rest)
    | rest => some rest

/-- The text after a position: `@`, a number, a comma and a number, with white space allowed before
each of them. -/
def afterPosition? (cs : List Char) : Option (List Char) :=
  match cs.dropWhile Text.isWhitespace with
  | '@' :: rest =>
    match afterNumber? (rest.dropWhile Text.isWhitespace) with
    | some rest =>
      match rest.dropWhile Text.isWhitespace with
      | ',' :: rest => afterNumber? (rest.dropWhile Text.isWhitespace)
      | _ => none
    | none => none
  | _ => none

/-- A text without its positions; the first `skip` characters belong to one already found. -/
def withoutPositions : Nat → List Char → List Char
  | _, [] => []
  | skip + 1, _ :: rest => withoutPositions skip rest
  | 0, c :: rest =>
    match afterPosition? (c :: rest) with
    | some after => withoutPositions (rest.length - after.length) rest
    | none => c :: withoutPositions 0 rest

section

-- One step is taken without a look into the search for a position.
attribute [local irreducible] afterPosition?

theorem withoutPositions_cons (c : Char) (rest : List Char) :
    withoutPositions 0 (c :: rest) = match afterPosition? (c :: rest) with
      | some after => withoutPositions (rest.length - after.length) rest
      | none => c :: withoutPositions 0 rest :=
  rfl

end

/-- A line that starts with `[id]`, in its three parts. -/
structure NodeLine where
  indent : List Char
  id : List Char
  rest : List Char
deriving Repr, DecidableEq

/-- An id in brackets is not empty and holds no white space. -/
def nodeLine? (line : List Char) : Option NodeLine :=
  let indent := line.takeWhile Text.isWhitespace
  match line.dropWhile Text.isWhitespace with
  | '[' :: inner =>
    let inId (c : Char) := c != ']' && !Text.isWhitespace c
    let id := inner.takeWhile inId
    match id, inner.dropWhile inId with
    | _ :: _, ']' :: rest => some ⟨indent, id, rest⟩
    | _, _ => none
  | _ => none

/-- A line that holds an arrow or an interface symbol. -/
def isConnectorLine (line : List Char) : Bool :=
  Text.contains ['-', '>'] line || InterfaceSymbol.occursIn line

/-- A node line with another position, written before the brace that opens the block. -/
def patched (line : NodeLine) (id place : String) : List Char :=
  let (header, block) := Text.cutAt '\x7b' line.rest
  let tail := match block with
    | some inner => [' ', '\x7b'] ++ Text.trimEnd inner
    | none => []
  line.indent ++ ('[' :: id.toList) ++ (']' :: Text.trimEnd (withoutPositions 0 header)) ++
    place.toList ++ tail

variable {α : Type} [Scalar α]

/-- The node whose position belongs on a line, if it is one that is rewritten. -/
def nodeOnLine? (diagram : Diagram α) (line : List Char) : Option (NodeLine × FlatNode α) := do
  let parts ← nodeLine? line
  let node ← diagram.node? (String.ofList parts.id)
  if isConnectorLine line then none else return (parts, node)

def patchLine (diagram : Diagram α) (line : List Char) : Except Unbounded (List Char) :=
  match nodeOnLine? diagram line with
  | some (parts, node) => do
    return patched parts node.id (← placeText node.x node.y)
  | none => .ok line

/-- The source with the positions of the diagram; all other text stays as it is. -/
def updatePositions (source : String) (diagram : Diagram α) : Except Unbounded String := do
  let ls ← (Text.lines source.toList).mapM (patchLine diagram)
  return String.ofList (Text.unlines ls)

/-- How many lines the positions of a diagram change. -/
def patchedCount (source : String) (diagram : Diagram α) : Nat :=
  (Text.lines source.toList).countP fun line => (nodeOnLine? diagram line).isSome

/-- Copy centres and sizes of the flat view into the nested one. -/
def syncPositions (doc : Document α) (diagram : Diagram α) : Document α :=
  let update (c : Component α) : Component α :=
    match diagram.node? c.id with
    | some n => { c with x := some n.x, y := some n.y, width := n.width, height := n.height }
    | none => c
  { doc with roots := Tree.forestMap update doc.roots }

end ComponentDiagram.Print
