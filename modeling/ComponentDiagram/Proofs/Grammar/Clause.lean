import ComponentDiagram.Grammar.Statement
import Mathlib

/-! Clauses: what a reader takes from its tokens at a time. Which clause stands at the front of some
tokens depends on these tokens alone, and what it does depends on the state alone. -/
namespace ComponentDiagram.Grammar

/-- A line end, a closing brace, a skipped line, or the head of a statement. -/
inductive Clause (α : Type)
  | newline
  | closing
  | skipped (token : Token)
  | edge (name interface : Option String) (source : String) (kind : ConnectorKind)
      (target : String) (label : Option String)
  | component (opening : Token) (id label : String) (place : Option (α × α)) (opens : Bool)
  | port (opening : Token) (id : String) (target : Reader.PortTarget) (side : Side)
      (label : Option String)

/-- The clause opens a block. -/
def Clause.opens {α : Type} : Clause α → Bool
  | .component _ _ _ _ opens => opens
  | _ => false

/-! ## Reading a clause -/

/-- A token of a component's label. -/
def inHead (t : Token) : Bool :=
  !([.atSign, .leftBrace, .newline, .rightBrace] : List TokenKind).contains t.kind

/-- A token of what reaches to the end of its line. -/
def inLine (t : Token) : Bool := !([.newline, .rightBrace] : List TokenKind).contains t.kind

/-- The kind of the first token; after the last one the input ends. -/
def headKind : List Token → TokenKind
  | [] => .endOfInput
  | t :: _ => t.kind

/-- The tokens after line ends. -/
def afterLines (ts : List Token) : List Token := ts.dropWhile fun t => t.kind == .newline

/-- A label after its colon, and what is left. -/
def trailing : List Token → Option String × List Token
  | [] => (none, [])
  | t :: ts =>
    if t.kind = .colon then (some (Reader.joined (ts.takeWhile inLine)), ts.dropWhile inLine)
    else (none, t :: ts)

/-- One identifier, or two, and then a connector. -/
def startsEdge : List Token → Bool
  | a :: b :: ts =>
    a.kind == .identifier &&
      (b.kind.isConnector || (b.kind == .identifier && (headKind ts).isConnector))
  | _ => false

/-- An identifier in brackets. -/
structure Brackets (opening inner closing : Token) : Prop where
  opening : opening.kind = .leftBracket
  inner : inner.kind = .identifier
  closing : closing.kind = .rightBracket

/-- The ends of an edge: its interface, its source, what is drawn, its target, and what is left. -/
inductive Ends : List Token → Option String → String → Token → String → List Token → Prop
  | bare {source drawn target ts} : source.kind = .identifier → drawn.kind.isConnector = true →
      target.kind = .identifier →
      Ends (source :: drawn :: target :: ts) none source.text drawn target.text ts
  | named {first source drawn target ts} : first.kind = .identifier → source.kind = .identifier →
      drawn.kind.isConnector = true → target.kind = .identifier →
      Ends (first :: source :: drawn :: target :: ts) (some first.text) source.text drawn
        target.text ts

variable {α : Type}

/-- An optional position, and what is left. -/
inductive Placed [Scalar α] : List Token → Option (α × α) → List Token → Prop
  | absent {ts} : headKind ts ≠ .atSign → Placed ts none ts
  | present {sign across comma down ts x y} : sign.kind = .atSign → across.kind = .number →
      comma.kind = .comma → down.kind = .number →
      Reader.coordinateOf across.text = .ok x → Reader.coordinateOf down.text = .ok y →
      Placed (sign :: across :: comma :: down :: ts) (some (x, y)) ts

/-- An optional opening brace, and what is left. -/
def brace : List Token → Bool × List Token
  | [] => (false, [])
  | t :: ts => if t.kind = .leftBrace then (true, ts) else (false, t :: ts)

/-- The word of a port's target. -/
def targetKind : Reader.PortTarget → TokenKind
  | .on _ => .onWord
  | .inside _ => .withWord

def targetName : Reader.PortTarget → String
  | .on id => id
  | .inside connector => connector

/-- A token that no clause starts with. -/
def isStray (k : TokenKind) : Bool :=
  k != .newline && k != .rightBrace && k != .portWord && k != .leftBracket && k != .identifier

/-- The clause at the front of some tokens, and the tokens after it. -/
inductive Reads [Scalar α] : List Token → Clause α → List Token → Prop
  | newline {t ts} : t.kind = .newline → Reads (t :: ts) .newline ts
  | closing {t ts} : t.kind = .rightBrace → Reads (t :: ts) .closing ts
  | skipped {t ts} : isStray t.kind = true → Reads (t :: ts) (.skipped t) (ts.dropWhile inLine)
  | edge {ts iface source drawn kind target rest} : Ends ts iface source drawn target rest →
      Reader.connectorKind drawn = .ok kind →
      Reads ts (.edge none iface source kind target (trailing rest).1) (trailing rest).2
  | namedEdge {o i c ts iface source drawn kind target rest} : Brackets o i c →
      Ends ts iface source drawn target rest → Reader.connectorKind drawn = .ok kind →
      Reads (o :: i :: c :: ts) (.edge (some i.text) iface source kind target (trailing rest).1)
        (trailing rest).2
  | component {o i c ts place rest} : Brackets o i c → startsEdge ts = false →
      Placed (ts.dropWhile inHead) place rest →
      Reads (o :: i :: c :: ts)
        (.component o i.text (Reader.joined (ts.takeWhile inHead)) place (brace rest).1)
        (brace rest).2
  | port {p o i c word o' i' c' s ts target side} : p.kind = .portWord → Brackets o i c →
      word.kind = targetKind target → Brackets o' i' c' → i'.text = targetName target →
      s.kind = .side → Side.ofName? s.text = some side →
      Reads (p :: o :: i :: c :: word :: o' :: i' :: c' :: s :: ts)
        (.port p i.text target side (trailing ts).1) (trailing ts).2

/-! ## What a clause does -/

namespace State

/-- The state with one more diagnostic, at a token. -/
def warned (s : State α) (message : String) (t : Token) : State α :=
  { s with
    diagnostics := s.diagnostics ++
      [{ message, line := t.position.line, column := t.position.column }] }

/-- The state with one more connector, numbered as the next one. -/
def connect (s : State α) (name interface : Option String) (source : String) (kind : ConnectorKind)
    (target : String) (label : Option String) : State α :=
  { s with
    connectors := s.connectors ++
      [{ kind
         id := s!"edge-{s.connectors.length}"
         source := Endpoint.ofString source
         target := Endpoint.ofString target
         name
         label
         interfaceName := interface }] }

/-- The state inside a component that was just opened. -/
def enter (s : State α) (c : Component α) (attached : Bool) : State α :=
  { s with scope := ⟨c, [], attached⟩ :: s.scope }

/-- The state with one more port on the innermost open component. -/
def addInner (s : State α) (port : Port α) : State α :=
  match s.scope with
  | frame :: outer => { s with scope := frame.addPort port :: outer }
  | [] => s

end State

/-- A component may be opened inside so many others. -/
def withinLimit (limit : Option Nat) (depth : Nat) : Bool :=
  match limit with
  | some limit => decide (depth < limit)
  | none => true

/-- A component as it is written, still without ports. -/
def written (id label : String) (place : Option (α × α)) : Component α :=
  { id, label, x := place.map (·.1), y := place.map (·.2) }

/-- The effect of a clause; none if the clause may not stand where it does. -/
def Clause.act (limit : Option Nat) : Clause α → State α → Option (State α)
  | .newline, s => some s
  | .closing, s => if s.scope.isEmpty then none else some s.close
  | .skipped t, s =>
    some (s.warned s!"Unexpected {t.kind.describe} {Text.quoted t.text}, skipping line" t)
  | .edge name interface source kind target label, s =>
    some (s.connect name interface source kind target label)
  | .component opening id label place opens, s =>
    let attached := withinLimit limit s.scope.length
    let noted := if attached then s else
      s.warned (s!"Node '{id}' exceeds maximum nesting depth of {limit.getD 0} " ++
        "and was dropped") opening
    some (if opens then noted.enter (written id label place) attached
      else if attached then noted.attach (.node (written id label place) []) else noted)
  | .port opening id target side label, s =>
    match target with
    | .inside connector =>
      if s.scope.isEmpty then none
      else some (s.addInner { id, side, label, connectorRef := some connector })
    | .on node =>
      some ((s.addPort? node { id, side, label }).getD
        (s.warned s!"Node '{node}' not found for port '{id}'" opening))

/-- Clauses one after the other. -/
inductive ReadsAll [Scalar α] : List Token → List (Clause α) → List Token → Prop
  | nil {ts} : ReadsAll ts [] ts
  | cons {ts c ts' cs rest} : Reads ts c ts' → ReadsAll ts' cs rest → ReadsAll ts (c :: cs) rest

/-- The effects of clauses one after the other. -/
def actAll (limit : Option Nat) : List (Clause α) → State α → Option (State α)
  | [], s => some s
  | c :: cs, s => (c.act limit s).bind (actAll limit cs)

@[simp] theorem actAll_nil (limit : Option Nat) (s : State α) : actAll limit [] s = some s := rfl

theorem actAll_cons (limit : Option Nat) (c : Clause α) (cs : List (Clause α)) (s : State α) :
    actAll limit (c :: cs) s = (c.act limit s).bind (actAll limit cs) := rfl

theorem actAll_append (limit : Option Nat) (cs ds : List (Clause α)) (s : State α) :
    actAll limit (cs ++ ds) s = (actAll limit cs s).bind (actAll limit ds) := by
  induction cs generalizing s with
  | nil => rfl
  | cons c cs ih =>
    simp only [List.cons_append, actAll_cons]
    cases c.act limit s with
    | none => rfl
    | some s' => exact ih s'

section

variable [Scalar α]

theorem ReadsAll.append {ts ts' rest : List Token} {cs ds : List (Clause α)}
    (h : ReadsAll ts cs ts') (k : ReadsAll ts' ds rest) : ReadsAll ts (cs ++ ds) rest := by
  induction h with
  | nil => exact k
  | cons hr _ ih => exact .cons hr (ih k)

theorem ReadsAll.single {ts ts' : List Token} {c : Clause α} (h : Reads ts c ts') :
    ReadsAll ts [c] ts' :=
  .cons h .nil

/-! ## What is left is an end of what was there -/

theorem trailing_suffix (ts : List Token) : (trailing ts).2 <:+ ts := by
  cases ts with
  | nil => exact List.suffix_rfl
  | cons t ts =>
    rw [trailing]
    split
    · exact (List.dropWhile_suffix _).trans (List.suffix_cons t ts)
    · exact List.suffix_rfl

theorem brace_suffix (ts : List Token) : (brace ts).2 <:+ ts := by
  cases ts with
  | nil => exact List.suffix_rfl
  | cons t ts =>
    rw [brace]
    split
    · exact List.suffix_cons t ts
    · exact List.suffix_rfl

theorem Ends.suffix {ts rest : List Token} {iface : Option String} {source target : String}
    {drawn : Token} (h : Ends ts iface source drawn target rest) : rest <:+ ts := by
  cases h with
  | bare => exact ⟨[_, _, _], rfl⟩
  | named => exact ⟨[_, _, _, _], rfl⟩

theorem Ends.head {ts rest : List Token} {iface : Option String} {source target : String}
    {drawn : Token} (h : Ends ts iface source drawn target rest) :
    headKind ts = .identifier := by
  cases h with
  | bare hs => exact hs
  | named hf => exact hf

theorem Ends.startsEdge {ts rest : List Token} {iface : Option String} {source target : String}
    {drawn : Token} (h : Ends ts iface source drawn target rest) : startsEdge ts = true := by
  cases h with
  | bare hs hd _ => simp [Grammar.startsEdge, hs, hd]
  | named hf hs hd _ => simp [Grammar.startsEdge, hf, hs, hd, headKind]

theorem Placed.suffix {ts rest : List Token} {place : Option (α × α)}
    (h : Placed ts place rest) : rest <:+ ts := by
  cases h with
  | absent => exact List.suffix_rfl
  | present => exact ⟨[_, _, _, _], rfl⟩

/-- A clause takes at least one token. -/
theorem Reads.suffix {ts rest : List Token} {c : Clause α} (h : Reads ts c rest) :
    ∃ t tail, ts = t :: tail ∧ rest <:+ tail := by
  cases h with
  | newline => exact ⟨_, _, rfl, List.suffix_rfl⟩
  | closing => exact ⟨_, _, rfl, List.suffix_rfl⟩
  | skipped => exact ⟨_, _, rfl, List.dropWhile_suffix _⟩
  | edge he _ =>
    cases he with
    | bare => exact ⟨_, _, rfl, (trailing_suffix _).trans ⟨[_, _], rfl⟩⟩
    | named => exact ⟨_, _, rfl, (trailing_suffix _).trans ⟨[_, _, _], rfl⟩⟩
  | namedEdge _ he _ =>
    exact ⟨_, _, rfl, ((trailing_suffix _).trans he.suffix).trans ⟨[_, _], rfl⟩⟩
  | component _ _ hp =>
    exact ⟨_, _, rfl, (((brace_suffix _).trans hp.suffix).trans (List.dropWhile_suffix _)).trans
      ⟨[_, _], rfl⟩⟩
  | port => exact ⟨_, _, rfl, (trailing_suffix _).trans ⟨[_, _, _, _, _, _, _, _], rfl⟩⟩

theorem ReadsAll.suffix {ts rest : List Token} {cs : List (Clause α)} (h : ReadsAll ts cs rest) :
    rest <:+ ts := by
  induction h with
  | nil => exact List.suffix_rfl
  | cons hr _ ih =>
    obtain ⟨t, tail, rfl, hs⟩ := hr.suffix
    exact (ih.trans hs).trans (List.suffix_cons t tail)

end

end ComponentDiagram.Grammar
