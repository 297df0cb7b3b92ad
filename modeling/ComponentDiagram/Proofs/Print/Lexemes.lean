import ComponentDiagram.Print.Document
import ComponentDiagram.Proofs.Print.Canonical
import ComponentDiagram.Proofs.Text.Integer

/-! The tokens of canonical source, line by line. -/
namespace ComponentDiagram.Print
open Source

/-- A token that stands nowhere in particular. -/
def token (k : TokenKind) (text : String) : Token := ⟨k, text, {}⟩

theorem lexemeToken_toList (k : TokenKind) (s : String) : lexemeToken k s.toList = token k s := by
  rw [lexemeToken, String.ofList_toList, token]

theorem cut_of_spells {k : TokenKind} {s : String} (h : Spells k s.toList) :
    cut s.toList = [token k s] := by
  rw [h.cut, lexemeToken_toList]

/-! ## Words -/

theorem spells_port : Spells .portWord "port".toList :=
  ⟨'p', ['o', 'r', 't'], rfl, by decide, by decide⟩

theorem spells_on : Spells .onWord "on".toList := ⟨'o', ['n'], rfl, by decide, by decide⟩

theorem spells_with : Spells .withWord "with".toList :=
  ⟨'w', ['i', 't', 'h'], rfl, by decide, by decide⟩

theorem spells_side (side : Side) : Spells .side side.name.toList := by
  cases side with
  | left => exact ⟨'l', ['e', 'f', 't'], rfl, by decide, by decide⟩
  | right => exact ⟨'r', ['i', 'g', 'h', 't'], rfl, by decide, by decide⟩
  | top => exact ⟨'t', ['o', 'p'], rfl, by decide, by decide⟩
  | bottom => exact ⟨'b', ['o', 't', 't', 'o', 'm'], rfl, by decide, by decide⟩

theorem spells_type (type : DiagramType) : Spells .identifier type.name.toList := by
  cases type <;> exact ⟨'u', _, rfl, by decide, by decide⟩

theorem ofName?_side (side : Side) : Side.ofName? side.name = some side := by
  cases side <;> decide

theorem ofName?_type (type : DiagramType) : DiagramType.ofName? type.name = some type := by
  cases type <;> decide

/-- The kind of token that draws a connector. -/
def drawnKind : ConnectorKind → TokenKind
  | .plain _ => .arrow
  | .delegate => .delegateArrow
  | .interface _ => .interfaceConnector

theorem isConnector_drawnKind (kind : ConnectorKind) : (drawnKind kind).isConnector = true := by
  cases kind <;> rfl

theorem spells_drawn {kind : ConnectorKind}
    (h : ∀ mark, kind = .interface mark → IsValue .interfaceConnector mark.text) :
    Spells (drawnKind kind) kind.text.toList := by
  cases kind with
  | plain arrow =>
    cases arrow with
    | short => exact ⟨'-', ['>'], rfl, by decide, by decide⟩
    | long => exact ⟨'-', ['-', '>'], rfl, by decide, by decide⟩
  | delegate => exact ⟨'-', _, rfl, by decide, by decide⟩
  | interface mark => exact (h mark rfl).spells (by decide) (by decide)

/-- A connector's token draws the connector. -/
theorem connectorKind_drawn (kind : ConnectorKind) :
    Grammar.Reader.connectorKind (token (drawnKind kind) kind.text) = .ok kind := by
  cases kind with
  | plain arrow => cases arrow <;> rfl
  | delegate => rfl
  | interface mark =>
    have hmark : InterfaceSymbol.ofString? mark.text = some mark := by
      rw [InterfaceSymbol.ofString?, dif_pos mark.accepted]
    simp only [Grammar.Reader.connectorKind, token, drawnKind, ConnectorKind.text, hmark]

/-! ## Labels and ends -/

/-- The tokens of a label after its colon. -/
def labelTokens : Option String → List Token
  | none => []
  | some label => token .colon ":" :: cut label.toList

private theorem cut_colon (cs : List Char) : cut (':' :: cs) = token .colon ":" :: cut cs :=
  cut_delimiter rfl cs

theorem toList_labelText {label : String} (h : IsLabel label) : (labelText (some label)).toList =
    if label = "" then [' ', ':'] else ' ' :: ':' :: ' ' :: label.toList := by
  have htext : s!" : {label}".toList = ' ' :: ':' :: ' ' :: label.toList := by
    simp [toString]
  rw [labelText, String.toList_ofList, htext]
  split
  · rename_i he
    subst he
    decide
  · rename_i he
    refine Text.trimEnd_eq_self ?_
    have hne : label.toList ≠ [] := fun hn => he (String.toList_eq_nil_iff.mp hn)
    simp only [List.getLast?_cons, List.getLast?_eq_some_getLast hne]
    intro c hc
    refine Text.last_of_trimmed h.trimmed c ?_
    rw [List.getLast?_eq_some_getLast hne]
    simpa using hc

theorem apart_labelText {label : Option String} (h : ∀ l ∈ label, IsLabel l) :
    Apart (labelText label).toList := by
  cases label with
  | none => trivial
  | some l =>
    rw [toList_labelText (h l rfl)]
    split <;> exact apart_space _

theorem cut_labelText {label : Option String} (h : ∀ l ∈ label, IsLabel l) :
    cut (labelText label).toList = labelTokens label := by
  cases label with
  | none => rfl
  | some l =>
    rw [toList_labelText (h l rfl), labelTokens]
    split
    · rename_i he
      rw [cut_space, cut_colon, he]
      rfl
    · rw [cut_space, cut_colon, cut_space]

/-! ## Ports and connectors -/

/-- The tokens of a name in brackets. -/
def bracketTokens (name : String) : List Token :=
  [token .leftBracket "[", token .identifier name, token .rightBracket "]"]

theorem cut_brackets {name : String} (h : IsIdentifier name) (cs : List Char) :
    cut ('[' :: (name.toList ++ ']' :: cs)) = bracketTokens name ++ cut cs := by
  have hid := h.spells (by decide) (by decide)
  have hclose : Apart (']' :: cs) := boundary_of_delimiter (k := .rightBracket) rfl
  rw [cut_delimiter (k := .leftBracket) rfl, hid.cut_append hclose,
    cut_delimiter (k := .rightBracket) rfl, lexemeToken_toList]
  rfl

variable {α : Type} [Scalar α]

/-- Where a port is declared. -/
def portTarget (owner : String) (port : Port α) : Grammar.Reader.PortTarget :=
  match port.connectorRef with
  | some connector => .inside connector
  | none => .on owner

/-- The word before the place of a port. -/
def placeWord (port : Port α) : Token :=
  match port.connectorRef with
  | some _ => token .withWord "with"
  | none => token .onWord "on"

def portTokens (owner : String) (port : Port α) : List Token :=
  token .portWord "port" :: bracketTokens port.id ++
    (placeWord port :: bracketTokens (Grammar.targetName (portTarget owner port))) ++
    token .side port.side.name :: labelTokens port.label

omit [Scalar α] in
theorem nonempty?_of_identifier {name : Option String} (h : ∀ n ∈ name, IsIdentifier n) :
    nonempty? name = name := by
  cases name with
  | none => rfl
  | some n => simp [nonempty?, Option.filter, IsIdentifier.ne_empty (h n rfl)]

/-- Where a port is declared, as it is written. -/
private def placeWords (owner : String) (port : Port α) : String :=
  match port.connectorRef with
  | some connector => s!"with [{connector}]"
  | none => s!"on [{owner}]"

omit [Scalar α] in
private theorem cut_placeWords {owner : String} (ho : IsIdentifier owner) {port : Port α}
    (h : port.IsCanonical) (cs : List Char) :
    cut ((placeWords owner port).toList ++ ' ' :: cs) =
      placeWord port :: bracketTokens (Grammar.targetName (portTarget owner port)) ++ cut cs := by
  rw [placeWords, placeWord]
  cases hr : port.connectorRef with
  | none =>
    have htext : s!"on [{owner}]".toList ++ ' ' :: cs =
        "on".toList ++ ' ' :: '[' :: (owner.toList ++ ']' :: ' ' :: cs) := by
      simp [toString]
    simp only [htext, portTarget, hr, Grammar.targetName]
    rw [spells_on.cut_append (apart_space _), cut_space, cut_brackets ho, cut_space,
      lexemeToken_toList]
    rfl
  | some connector =>
    have htext : s!"with [{connector}]".toList ++ ' ' :: cs =
        "with".toList ++ ' ' :: '[' :: (connector.toList ++ ']' :: ' ' :: cs) := by
      simp [toString]
    simp only [htext, portTarget, hr, Grammar.targetName]
    rw [spells_with.cut_append (apart_space _), cut_space,
      cut_brackets (h.connectorRef connector hr), cut_space, lexemeToken_toList]
    rfl

omit [Scalar α] in
theorem cut_portText {owner : String} (ho : IsIdentifier owner) {port : Port α}
    (h : port.IsCanonical) : cut (portText owner port).toList = portTokens owner port := by
  have htext : (portText owner port).toList =
      "port".toList ++ ' ' :: '[' :: (port.id.toList ++ ']' :: ' ' ::
        ((placeWords owner port).toList ++
          ' ' :: (port.side.name.toList ++ (labelText port.label).toList))) := by
    rw [portText, nonempty?_of_identifier h.connectorRef, placeWords]
    cases port.connectorRef <;> simp [toString]
  rw [htext, spells_port.cut_append (apart_space _), cut_space, cut_brackets h.id, cut_space,
    cut_placeWords ho h, (spells_side _).cut_append (apart_labelText h.label),
    cut_labelText h.label, lexemeToken_toList, lexemeToken_toList, portTokens]
  simp

/-- The tokens of a connector, whatever its ends are cut to. -/
def connectorTokens (c : Connector) : List Token :=
  c.name.toList.flatMap bracketTokens ++
    (c.interfaceName.toList.map (token .identifier) ++
      (cut (endpointText c.source).toList ++ (token (drawnKind c.kind) c.kind.text ::
        (cut (endpointText c.target).toList ++ labelTokens c.label))))

theorem cut_connectorText {c : Connector} (h : c.IsWellFormed) :
    cut (connectorText c).toList = connectorTokens c := by
  have hspace : (" " : String).toList = [' '] := rfl
  have hname : (c.name.toList.map fun name => s!"[{name}]").flatMap (fun w => cut w.toList) =
      c.name.toList.flatMap bracketTokens := by
    cases hn : c.name with
    | none => rfl
    | some n =>
      have htext : s!"[{n}]".toList = '[' :: (n.toList ++ ']' :: []) := by simp [toString]
      simp only [Option.toList_some, List.map_singleton, List.flatMap_singleton, htext,
        cut_brackets (h.name n hn)]
      simp
  have hiface : c.interfaceName.toList.flatMap (fun w => cut w.toList) =
      c.interfaceName.toList.map (token .identifier) := by
    cases hn : c.interfaceName with
    | none => rfl
    | some n => simp [cut_of_spells ((h.interfaceName n hn).spells (by decide) (by decide))]
  rw [connectorText, nonempty?_of_identifier h.name, nonempty?_of_identifier h.interfaceName,
    String.toList_append, cut_append _ (apart_labelText h.label), cut_labelText h.label,
    String.toList_intercalate, hspace, cut_join, List.flatMap_map]
  simp only [List.flatMap_append, hname, hiface, List.flatMap_cons, List.flatMap_nil,
    cut_of_spells (spells_drawn h.symbol), connectorTokens]
  simp

/-! ## Components -/

/-- The integer that is written for a coordinate. -/
def integerOf (x : α) : Int := (Scalar.nearestInt x).toOption.getD 0

/-- The coordinate is written as an integer that can be read. -/
def IsWritable (x : α) : Prop :=
  ∃ n y, Scalar.nearestInt x = .ok n ∧ Grammar.Reader.coordinateOf (α := α) (toString n) = .ok y

theorem IsWritable.integer {x : α} (h : IsWritable x) :
    Scalar.nearestInt x = .ok (integerOf x) := by
  obtain ⟨n, -, hn, -⟩ := h
  rw [integerOf, hn]
  rfl

/-- The integers that are written for a position. -/
def writtenPlace (c : Component α) : Option (Int × Int) :=
  match c.x, c.y with
  | some x, some y => some (integerOf x, integerOf y)
  | _, _ => none

def placeTokens (place : Option (Int × Int)) : List Token :=
  match place with
  | some (x, y) =>
    [token .atSign "@", token .number (toString x), token .comma ",", token .number (toString y)]
  | none => []

def headTokens (c : Component α) : List Token :=
  bracketTokens c.id ++ (cut c.label.toList ++ placeTokens (writtenPlace c))

theorem toString_self (s : String) : toString s = s := rfl

theorem toList_placeText (x y : Int) : s!" @ {x},{y}".toList =
    ' ' :: '@' :: ' ' :: ((toString x).toList ++ ',' :: (toString y).toList) := by
  simp [toString_self]

theorem cut_placeText (x y : Int) {cs : List Char} (ha : Apart cs) :
    cut (s!" @ {x},{y}".toList ++ cs) = placeTokens (some (x, y)) ++ cut cs := by
  have htext : s!" @ {x},{y}".toList ++ cs =
      ' ' :: '@' :: ' ' :: ((toString x).toList ++ ',' :: ((toString y).toList ++ cs)) := by
    rw [toList_placeText]
    simp
  have hcomma : Apart (',' :: ((toString y).toList ++ cs)) :=
    boundary_of_delimiter (k := .comma) rfl
  rw [htext, cut_space, cut_delimiter (k := .atSign) rfl, cut_space,
    (spells_toString x).cut_append hcomma, cut_delimiter (k := .comma) rfl,
    (spells_toString y).cut_append ha, lexemeToken_toList, lexemeToken_toList]
  rfl

/-- A label as it follows the name of a component. -/
def labelPart (c : Component α) : String := if c.label = "" then "" else " " ++ c.label

/-- The head of a component is written, and is its tokens, whatever stands apart behind it. -/
theorem cut_headText {c : Component α} (h : c.IsWellFormed IsWritable) :
    ∃ head, headText c = .ok head ∧ ∀ cs, (∀ d ∈ cs.head?, d = ' ') →
      cut (head.toList ++ cs) = headTokens c ++ cut cs := by
  have happart {cs : List Char} (hcs : ∀ d ∈ cs.head?, d = ' ') : Apart cs := by
    cases cs with
    | nil => trivial
    | cons d cs => rw [hcs d rfl]; exact apart_space cs
  have hlabel (cs : List Char) (hcs : ∀ d ∈ cs.head?, d = ' ') :
      cut ((labelPart c).toList ++ cs) =
        cut c.label.toList ++ cut cs := by
    rw [labelPart]
    split
    · rename_i he
      rw [he]
      rfl
    · rw [String.toList_append]
      exact (cut_space _).trans (cut_append _ (happart hcs))
  rcases h.place with ⟨hx, hy⟩ | ⟨x, y, hx, hy, hwx, hwy⟩
  · refine ⟨s!"[{c.id}]{labelPart c}" ++ "", ?_, ?_⟩
    · simp only [headText, hx, hy]
      rfl
    · intro cs hcs
      have htext : (s!"[{c.id}]{labelPart c}" ++ "").toList ++ cs =
          '[' :: (c.id.toList ++ ']' ::
            ((labelPart c).toList ++ cs)) := by
        simp [toString]
      rw [htext, cut_brackets h.id, hlabel cs hcs, headTokens, writtenPlace, hx]
      simp [placeTokens]
  · refine ⟨s!"[{c.id}]{labelPart c}" ++
      s!" @ {integerOf x},{integerOf y}", ?_, ?_⟩
    · simp only [headText, hx, hy, placeText, coordinate, hwx.integer, hwy.integer]
      rfl
    · intro cs hcs
      have htext : (s!"[{c.id}]{labelPart c}" ++
          s!" @ {integerOf x},{integerOf y}").toList ++ cs = '[' :: (c.id.toList ++ ']' ::
            ((labelPart c).toList ++
              (s!" @ {integerOf x},{integerOf y}".toList ++ cs))) := by
        simp [toString]
      have hplace : ∀ d ∈ (s!" @ {integerOf x},{integerOf y}".toList ++ cs).head?, d = ' ' := by
        intro d hd
        rw [toList_placeText] at hd
        exact (Option.some.inj hd).symm
      rw [htext, cut_brackets h.id, hlabel _ hplace, cut_placeText _ _ (happart hcs), headTokens,
        writtenPlace, hx, hy]
      simp

end ComponentDiagram.Print
