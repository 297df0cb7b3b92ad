import ComponentDiagram.Proofs.Grammar.Clause
import ComponentDiagram.Proofs.Print.Lines

/-! Canonical source read back: which clauses its tokens are, and what they gather. -/
namespace ComponentDiagram
open Source Grammar Print

variable {α : Type} [Scalar α]

/-- A coordinate that is written and read back. -/
def reread (x : α) : α :=
  match Reader.coordinateOf (toString (integerOf x)) with
  | .ok y => y
  | .error _ => x

/-- A component whose coordinates are written and read back. -/
def Component.reread (c : Component α) : Component α :=
  { c with x := c.x.map ComponentDiagram.reread, y := c.y.map ComponentDiagram.reread }

namespace Print

theorem IsWritable.reread {x : α} (h : IsWritable x) :
    Reader.coordinateOf (toString (integerOf x)) = .ok (reread x) := by
  obtain ⟨n, y, hn, hy⟩ := h
  have hi : integerOf x = n := by rw [integerOf, hn]; rfl
  rw [ComponentDiagram.reread, hi, hy]

/-- The position of a component, read back. -/
def rereadPlace (c : Component α) : Option (α × α) :=
  match c.x, c.y with
  | some x, some y => some (reread x, reread y)
  | _, _ => none

def headClause (c : Component α) (opens : Bool) : Clause α :=
  .component (token .leftBracket "[") c.id c.label (rereadPlace c) opens

def portClause (owner : String) (p : Port α) : Clause α :=
  .port (token .portWord "port") p.id (portTarget owner p) p.side p.label

def edgeClause (c : Connector) : Clause α :=
  .edge c.name c.interfaceName (endpointText c.source) c.kind (endpointText c.target) c.label

/-- The clauses of the ports that are declared in their owner's block. -/
def portsClauses (c : Component α) : List (Clause α) :=
  c.ports.flatMap fun p => [portClause c.id p, .newline]

mutual

def treeClauses : ComponentTree α → List (Clause α)
  | .node c children =>
    if children.isEmpty && c.ports.isEmpty then [headClause c false, .newline]
    else
      headClause c true :: .newline ::
        (portsClauses c ++ (forestClauses children ++ [.closing, .newline]))

def forestClauses : List (ComponentTree α) → List (Clause α)
  | [] => []
  | t :: ts => treeClauses t ++ forestClauses ts

end

/-! ## Reading -/

theorem brackets_tokens (name : String) : Brackets (token .leftBracket "[")
    (token .identifier name) (token .rightBracket "]") :=
  ⟨rfl, rfl, rfl⟩

theorem reads_lineEnd (rest : List Token) : Reads (α := α) (lineEnd :: rest) .newline rest :=
  .newline rfl

theorem trailing_label {label : Option String} (h : ∀ l ∈ label, IsLabel l) (rest : List Token) :
    trailing (labelTokens label ++ lineEnd :: rest) = (label, lineEnd :: rest) := by
  cases label with
  | none => rfl
  | some l =>
    have hl := h l rfl
    rw [labelTokens, List.cons_append, trailing, if_pos (show (token .colon ":").kind = .colon from rfl),
      List.takeWhile_append_of_pos hl.inLine, List.dropWhile_append_of_pos hl.inLine]
    simp [lineEnd, inLine, token, hl.joined_cut]

theorem reads_port {owner : String} {p : Port α} (h : p.IsCanonical) (rest : List Token) :
    Reads (portTokens owner p ++ lineEnd :: rest) (portClause owner p) (lineEnd :: rest) := by
  have htrailing := trailing_label h.label rest
  have hside : Side.ofName? (token .side p.side.name).text = some p.side := ofName?_side p.side
  have hreads (word : Token) (hw : word.kind = targetKind (portTarget owner p)) (ts : List Token) :
      Reads (α := α) (token .portWord "port" :: (bracketTokens p.id ++ word ::
        (bracketTokens (targetName (portTarget owner p)) ++ token .side p.side.name :: ts)))
        (.port (token .portWord "port") p.id (portTarget owner p) p.side (trailing ts).1)
        (trailing ts).2 :=
    .port rfl (brackets_tokens p.id) hw (brackets_tokens _) rfl rfl hside
  have hword : (placeWord p).kind = targetKind (portTarget owner p) := by
    rw [placeWord, portTarget]
    cases p.connectorRef <;> rfl
  have hport := hreads _ hword (labelTokens p.label ++ lineEnd :: rest)
  rw [htrailing] at hport
  simpa [portClause, portTokens] using hport

theorem startsEdge_append {ts rest : List Token} (h : startsEdge ts = false)
    (hi : headKind rest ≠ .identifier) (hc : (headKind rest).isConnector = false) :
    startsEdge (ts ++ rest) = false := by
  match ts, rest with
  | [], [] => rfl
  | [], [a] => rfl
  | [], a :: b :: rest =>
    have hi : a.kind ≠ .identifier := hi
    simp [startsEdge, hi]
  | [a], [] => rfl
  | [a], b :: rest =>
    have hi : b.kind ≠ .identifier := hi
    have hc : b.kind.isConnector = false := hc
    simp [startsEdge, hi, hc]
  | [a, b], rest =>
    simp only [startsEdge, headKind] at h
    simp only [List.cons_append, List.nil_append, startsEdge, hc]
    simpa [TokenKind.isConnector] using h
  | a :: b :: c :: ts, rest => exact h

/-- What may follow a component's head on its line. -/
def EndsHead (rest : List Token) : Prop :=
  headKind rest = .leftBrace ∨ headKind rest = .newline

private theorem placed_tokens {c : Component α} (h : c.IsWellFormed IsWritable) {rest : List Token}
    (hr : EndsHead rest) : Placed (placeTokens (writtenPlace c) ++ rest) (rereadPlace c) rest := by
  rw [writtenPlace, rereadPlace]
  rcases h.place with ⟨hx, hy⟩ | ⟨x, y, hx, hy, hwx, hwy⟩
  · rw [hx, hy]
    refine .absent ?_
    rcases hr with hr | hr <;> simp [placeTokens, hr]
  · rw [hx, hy]
    exact .present rfl rfl rfl rfl hwx.reread hwy.reread

theorem reads_head {c : Component α} (h : c.IsCanonical IsWritable) {rest : List Token}
    (hr : EndsHead rest) :
    Reads (headTokens c ++ rest) (headClause c (brace rest).1) (brace rest).2 := by
  have htail : headKind (placeTokens (writtenPlace c) ++ rest) = .atSign ∨
      EndsHead (placeTokens (writtenPlace c) ++ rest) := by
    cases writtenPlace c with
    | none => exact .inr hr
    | some p => exact .inl rfl
  have hkind : headKind (placeTokens (writtenPlace c) ++ rest) ≠ .identifier ∧
      (headKind (placeTokens (writtenPlace c) ++ rest)).isConnector = false := by
    rcases htail with ht | ht | ht <;> rw [ht] <;> decide
  have hstop : ∀ t ∈ (placeTokens (writtenPlace c) ++ rest).head?, inHead t = false := by
    cases hts : placeTokens (writtenPlace c) ++ rest with
    | nil => simp
    | cons t ts =>
      rw [hts] at htail
      simp only [List.head?_cons, Option.mem_def, Option.some.injEq, forall_eq']
      rcases htail with ht | ht | ht <;>
        simp only [headKind] at ht <;> simp [inHead, ht]
  have htake : ((cut c.label.toList ++ (placeTokens (writtenPlace c) ++ rest)).takeWhile inHead) =
      cut c.label.toList ∧
      ((cut c.label.toList ++ (placeTokens (writtenPlace c) ++ rest)).dropWhile inHead) =
        placeTokens (writtenPlace c) ++ rest := by
    rw [List.takeWhile_append_of_pos h.label.inHead, List.dropWhile_append_of_pos h.label.inHead]
    cases hts : placeTokens (writtenPlace c) ++ rest with
    | nil => simp
    | cons t ts =>
      rw [hts] at hstop
      have ht := hstop t rfl
      simp [ht]
  have hreads := Reads.component (brackets_tokens c.id)
    (startsEdge_append h.edge hkind.1 hkind.2) (htake.2 ▸ placed_tokens h.toIsWellFormed hr)
  rw [htake.1, h.label.joined_cut] at hreads
  rw [headTokens, List.append_assoc, List.append_assoc]
  exact hreads

theorem reads_edge {c : Connector} (h : c.IsWellFormed) (hs : IsIdentifier (endpointText c.source))
    (ht : IsIdentifier (endpointText c.target)) (rest : List Token) :
    Reads (α := α) (connectorTokens c ++ lineEnd :: rest) (edgeClause c) (lineEnd :: rest) := by
  have hsource := cut_of_spells (hs.spells (by decide) (by decide))
  have htarget := cut_of_spells (ht.spells (by decide) (by decide))
  have hends : Ends (c.interfaceName.toList.map (token .identifier) ++
      token .identifier (endpointText c.source) :: token (drawnKind c.kind) c.kind.text ::
        token .identifier (endpointText c.target) :: (labelTokens c.label ++ lineEnd :: rest))
      c.interfaceName (endpointText c.source) (token (drawnKind c.kind) c.kind.text)
      (endpointText c.target) (labelTokens c.label ++ lineEnd :: rest) := by
    cases c.interfaceName with
    | none => exact .bare rfl (isConnector_drawnKind c.kind) rfl
    | some n => exact .named rfl rfl (isConnector_drawnKind c.kind) rfl
  have htrailing := trailing_label h.label rest
  have htokens : connectorTokens c ++ lineEnd :: rest = c.name.toList.flatMap bracketTokens ++
      (c.interfaceName.toList.map (token .identifier) ++
        token .identifier (endpointText c.source) :: token (drawnKind c.kind) c.kind.text ::
          token .identifier (endpointText c.target) :: (labelTokens c.label ++ lineEnd :: rest)) := by
    simp [connectorTokens, hsource, htarget]
  rw [htokens, edgeClause]
  cases c.name with
  | none =>
    have hreads := Reads.edge (α := α) hends (connectorKind_drawn c.kind)
    rwa [htrailing] at hreads
  | some n =>
    have hreads := Reads.namedEdge (α := α) (brackets_tokens n) hends (connectorKind_drawn c.kind)
    rwa [htrailing] at hreads

/-- A clause that ends before a line end. -/
theorem readsAll_line {ts rest : List Token} {c : Clause α}
    (h : Reads (ts ++ lineEnd :: rest) c (lineEnd :: rest)) :
    ReadsAll (ts ++ lineEnd :: rest) [c, .newline] rest :=
  .cons h (.single (reads_lineEnd rest))

theorem readsAll_ports {c : Component α} (h : ∀ p ∈ c.ports, p.IsCanonical) (rest : List Token) :
    ReadsAll (portsTokens c ++ rest) (portsClauses c) rest := by
  rw [portsTokens, portsClauses]
  generalize c.ports = ports at h ⊢
  induction ports with
  | nil => exact .nil
  | cons p ps ih =>
    obtain ⟨hp, hps⟩ := List.forall_mem_cons.mp h
    rw [List.flatMap_cons, List.flatMap_cons, List.append_assoc, List.append_assoc]
    exact (readsAll_line (reads_port hp _)).append (ih hps)

mutual

/-- The tokens of a tree are its clauses. -/
theorem readsAll_tree {limit depth : Nat} : (t : ComponentTree α) →
    t.AllBelow limit (Component.IsCanonical IsWritable) depth → (rest : List Token) →
    ReadsAll (treeTokens t ++ rest) (treeClauses t) rest
  | .node c children, h, rest => by
    rw [Tree.AllBelow] at h
    obtain ⟨⟨hc, -⟩, hchildren⟩ := h
    rw [treeTokens, treeClauses]
    split
    · rw [List.append_assoc]
      exact readsAll_line (reads_head hc (.inr rfl))
    · have hinside := readsAll_forest children hchildren
        (token .rightBrace "\x7d" :: lineEnd :: rest)
      have hclose : ReadsAll (α := α) (token .rightBrace "\x7d" :: lineEnd :: rest)
          [.closing, .newline] rest :=
        .cons (.closing rfl) (.single (reads_lineEnd rest))
      have hblock := (readsAll_ports hc.ports _).append (hinside.append hclose)
      have hhead (inner : List Token) : Reads (headTokens c ++ token .leftBrace "\x7b" :: inner)
          (headClause c true) inner :=
        reads_head hc (.inl rfl)
      simpa using (ReadsAll.cons (hhead _) (.single (reads_lineEnd _))).append hblock

theorem readsAll_forest {limit depth : Nat} : (ts : List (ComponentTree α)) →
    Tree.ForestAllBelow limit (Component.IsCanonical IsWritable) depth ts → (rest : List Token) →
    ReadsAll (forestTokens ts ++ rest) (forestClauses ts) rest
  | [], _, _ => .nil
  | t :: ts, h, rest => by
    rw [Tree.ForestAllBelow] at h
    rw [forestTokens, forestClauses, List.append_assoc]
    exact (readsAll_tree t h.1 _).append (readsAll_forest ts h.2 rest)

end

end Print

end ComponentDiagram
