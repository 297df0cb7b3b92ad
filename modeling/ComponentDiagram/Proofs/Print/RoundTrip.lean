import ComponentDiagram.Proofs.Grammar.Sources
import ComponentDiagram.Proofs.Numeric.Whole
import ComponentDiagram.Proofs.Print.Clauses

/-! A document that is written can be read back, and is the same document. -/
namespace ComponentDiagram
open Source Grammar Print

/-- A connector that is written and read back at a place in the order of all connectors. -/
def Connector.reread (place : Nat) (c : Connector) : Connector :=
  { c with
    id := s!"edge-{place}"
    source := Endpoint.ofString (endpointText c.source)
    target := Endpoint.ofString (endpointText c.target)
    origin := .declared }

/-- A connector whose ends are written as identifiers. -/
structure Connector.IsLegible (c : Connector) : Prop extends c.IsWellFormed where
  source : IsIdentifier (endpointText c.source)
  target : IsIdentifier (endpointText c.target)

variable {α : Type} [Scalar α]

/-- A document that is read as it is written. -/
structure Document.IsLegible (doc : Document α) : Prop where
  roots : Tree.ForestAllBelow 50 (Component.IsCanonical IsWritable) 0 doc.roots
  connectors : ∀ c ∈ doc.connectors, c.IsLegible

/-- A document that is written and read back. -/
def Document.reread (doc : Document α) : Document α :=
  { type := doc.type
    roots := Tree.forestMap Component.reread doc.roots
    connectors := doc.connectors.zipIdx.map fun p => p.1.reread p.2 }

/-! ## Canonical connectors -/

theorem Endpoint.text_eq {e : Endpoint} (h : e.port ≠ some "") : endpointText e = e.written := by
  rw [endpointText, Endpoint.written]
  cases hp : e.port with
  | none => rfl
  | some p =>
    have hne : p ≠ "" := fun he => h (by rw [hp, he])
    simp [nonempty?, Option.filter, hne]

/-- The first dot divides an end again. -/
theorem Endpoint.ofString_text {e : Endpoint} (hdot : '.' ∉ e.node.toList)
    (hport : e.port ≠ some "") : Endpoint.ofString (endpointText e) = e := by
  rw [Endpoint.text_eq hport]
  obtain ⟨node, port⟩ := e
  have hnode : ∀ c ∈ node.toList, (c != '.') = true := by
    intro c hc
    rw [bne_iff_ne]
    rintro rfl
    exact hdot hc
  cases port with
  | none =>
    simp only [Endpoint.written, Endpoint.ofString, List.takeWhile_eq_self_iff.mpr hnode,
      List.dropWhile_eq_nil_iff.mpr hnode]
    simp
  | some p =>
    have hne : p.toList ≠ [] := fun he => hport (congrArg some (String.toList_eq_nil_iff.mp he))
    have htext : s!"{node}.{p}".toList = node.toList ++ '.' :: p.toList := by simp [toString]
    simp only [Endpoint.written, Endpoint.ofString, htext,
      List.takeWhile_append_of_pos hnode, List.dropWhile_append_of_pos hnode]
    simp [hne]

theorem Connector.IsCanonical.isLegible {place : Nat} {c : Connector} (h : c.IsCanonical place) :
    c.IsLegible := by
  refine ⟨h.toIsWellFormed, ?_, ?_⟩
  · rw [Endpoint.text_eq h.source.port]
    exact h.source.written
  · rw [Endpoint.text_eq h.target.port]
    exact h.target.written

theorem Connector.IsCanonical.reread {place : Nat} {c : Connector} (h : c.IsCanonical place) :
    c.reread place = c := by
  rw [Connector.reread, Endpoint.ofString_text h.source.dot h.source.port,
    Endpoint.ofString_text h.target.dot h.target.port, ← h.id, ← h.origin]

/-! ## What the clauses of a document gather -/

namespace Print

/-- Trees handed over one after the other. -/
def attachAll (s : State α) (ts : List (ComponentTree α)) : State α := ts.foldl State.attach s

omit [Scalar α] in
theorem attachAll_inside {s : State α} {frame : Frame α} {outer : List (Frame α)}
    (h : s.scope = frame :: outer) (ts : List (ComponentTree α)) : attachAll s ts =
      { s with scope := { frame with children := frame.children ++ ts } :: outer } := by
  induction ts generalizing s frame with
  | nil => obtain ⟨_, scope, _, _, _⟩ := s; cases h; simp [attachAll]
  | cons t ts ih =>
    have hs : (s.attach t).scope = { frame with children := frame.children ++ [t] } :: outer := by
      rw [State.attach, h]
    rw [attachAll, List.foldl_cons, ← attachAll, ih hs, State.attach, h]
    simp

omit [Scalar α] in
theorem attachAll_outside {s : State α} (h : s.scope = []) (ts : List (ComponentTree α)) :
    attachAll s ts = { s with roots := s.roots ++ ts } := by
  induction ts generalizing s with
  | nil => simp [attachAll]
  | cons t ts ih =>
    have hs : (s.attach t).scope = [] := by rw [State.attach, h]
    rw [attachAll, List.foldl_cons, ← attachAll, ih hs, State.attach, h]
    simp

variable {limit : Option Nat}

omit [Scalar α] in
theorem act_port {owner : String} (ho : owner ≠ "") {p : Port α} (hp : p.IsCanonical)
    {s : State α} {frame : Frame α} {outer : List (Frame α)} (hs : s.scope = frame :: outer)
    (hid : frame.component.id = owner) :
    (portClause owner p).act limit s = some { s with scope := frame.addPort p :: outer } := by
  obtain ⟨id, side, label, offset, ref⟩ := p
  have hoffset := hp.offset
  cases hoffset
  simp only [portClause, Clause.act, portTarget]
  cases ref with
  | some connector => simp only [hs, State.addInner]; rfl
  | none => simp [State.addPort?, ho, hs, addToOpen?, hid]

omit [Scalar α] in
theorem actAll_ports {c : Component α} (hid : c.id ≠ "") (h : ∀ p ∈ c.ports, p.IsCanonical)
    {s : State α} {frame : Frame α} {outer : List (Frame α)} (hs : s.scope = frame :: outer)
    (hc : frame.component.id = c.id) : actAll limit (portsClauses c) s = some { s with
      scope := { frame with component.ports := frame.component.ports ++ c.ports } :: outer } := by
  rw [portsClauses]
  generalize c.ports = ports at h ⊢
  induction ports generalizing s frame with
  | nil => obtain ⟨_, scope, _, _, _⟩ := s; cases hs; simp
  | cons p ps ih =>
    obtain ⟨hp, hps⟩ := List.forall_mem_cons.mp h
    rw [List.flatMap_cons, actAll_append, actAll_cons, act_port hid hp hs hc, Option.bind_some]
    have hnext := ih (s := { s with scope := frame.addPort p :: outer }) rfl hc hps
    refine hnext.trans ?_
    simp [Frame.addPort]

private theorem written_place {c : Component α} (h : c.IsWellFormed IsWritable) :
    { written c.id c.label (rereadPlace c) with ports := c.ports } = c.reread := by
  obtain ⟨id, label, x, y, width, height, ports⟩ := c
  have hw := h.width
  have hh := h.height
  cases hw
  cases hh
  rcases h.place with ⟨hx, hy⟩ | ⟨x', y', hx, hy, -, -⟩ <;> cases hx <;> cases hy <;> rfl

mutual

/-- The clauses of a tree hand over the tree. -/
theorem actAll_tree {limit : Nat} : (t : ComponentTree α) → (s : State α) →
    t.AllBelow limit (Component.IsCanonical IsWritable) s.scope.length →
    actAll (some limit) (treeClauses t) s = some (s.attach (t.map Component.reread))
  | .node c children, s, h => by
    rw [Tree.AllBelow] at h
    obtain ⟨⟨hc, hdepth⟩, hchildren⟩ := h
    have hattached : withinLimit (some limit) s.scope.length = true := decide_eq_true hdepth
    have hplace := written_place hc.toIsWellFormed
    rw [treeClauses, Tree.map]
    split
    · rename_i hempty
      obtain ⟨hnil, hports⟩ := Bool.and_eq_true_iff.mp hempty
      rw [List.isEmpty_iff] at hnil hports
      rw [hports] at hplace
      rw [actAll_cons, headClause, ← hplace, hnil, Tree.forestMap]
      simp only [Clause.act, hattached, if_true]
      rfl
    · have henter : (headClause c true).act (some limit) s =
          some (s.enter (written c.id c.label (rereadPlace c)) true) := by
        simp only [headClause, Clause.act, hattached, if_true]
      rw [actAll_cons, henter, Option.bind_some, actAll_cons]
      refine (?_ : (actAll _ (portsClauses c ++ _) _) = _)
      rw [actAll_append, actAll_ports hc.id.ne_empty hc.ports rfl rfl, Option.bind_some,
        actAll_append, actAll_forest children _ (by exact hchildren), Option.bind_some,
        attachAll_inside rfl, actAll_cons]
      simp only [Clause.act, List.isEmpty_cons, State.close, State.enter, Bool.false_eq_true,
        if_false, if_true, Option.bind_some, Frame.tree, List.append_nil, List.nil_append, ← hplace]
      rfl

theorem actAll_forest {limit : Nat} : (ts : List (ComponentTree α)) → (s : State α) →
    Tree.ForestAllBelow limit (Component.IsCanonical IsWritable) s.scope.length ts →
    actAll (some limit) (forestClauses ts) s =
      some (attachAll s (Tree.forestMap Component.reread ts))
  | [], _, _ => rfl
  | t :: ts, s, h => by
    rw [Tree.ForestAllBelow] at h
    rw [forestClauses, actAll_append, actAll_tree t s h.1, Option.bind_some,
      actAll_forest ts _ (by rw [attach_depth]; exact h.2), Tree.forestMap]
    rfl

end

omit [Scalar α] in
theorem actAll_edges {limit : Option Nat} {s : State α} (cs : List Connector) {n : Nat}
    (hn : s.connectors.length = n) :
    actAll limit (cs.flatMap fun c => [edgeClause c, .newline]) s = some { s with
      connectors := s.connectors ++ (cs.zipIdx n).map fun p => p.1.reread p.2 } := by
  induction cs generalizing s n with
  | nil => simp
  | cons c cs ih =>
    have hc : Clause.act limit (edgeClause c) s =
        some { s with connectors := s.connectors ++ [c.reread n] } := by
      rw [← hn]
      rfl
    rw [List.flatMap_cons, actAll_append, actAll_cons, hc, Option.bind_some]
    have hnext := ih (s := { s with connectors := s.connectors ++ [c.reread n] })
      (n := n + 1) (by simp [hn])
    refine hnext.trans ?_
    simp

theorem readsAll_edges {cs : List Connector} (h : ∀ c ∈ cs, c.IsLegible) (rest : List Token) :
    ReadsAll (α := α) (cs.flatMap (fun c => connectorTokens c ++ [lineEnd]) ++ rest)
      (cs.flatMap fun c => [edgeClause c, .newline]) rest := by
  induction cs with
  | nil => exact .nil
  | cons c cs ih =>
    obtain ⟨hc, hcs⟩ := List.forall_mem_cons.mp h
    rw [List.flatMap_cons, List.flatMap_cons, List.append_assoc, List.append_assoc]
    exact (readsAll_line (reads_edge hc.toIsWellFormed hc.source hc.target _)).append (ih hcs)

/-- The tokens of a legible document make the document. -/
theorem accepts_document {doc : Document α} (h : doc.IsLegible) :
    ∃ s, Accepts (some 50) (documentTokens doc) doc.type s ∧ s.diagnostics = [] ∧
      s.document doc.type = doc.reread := by
  let gap := if doc.roots.isEmpty || doc.connectors.isEmpty then [] else [lineEnd]
  let edges : List (Clause α) := doc.connectors.flatMap fun c => [edgeClause c, .newline]
  let spare : List (Clause α) :=
    if doc.roots.isEmpty || doc.connectors.isEmpty then [] else [.newline]
  have hclosing : headKind [token .rightBrace "\x7d", lineEnd] = .rightBrace := rfl
  have hspare (rest : List Token) : ReadsAll (gap ++ rest) spare rest := by
    simp only [gap, spare]
    split
    · exact .nil
    · exact .single (reads_lineEnd rest)
  have hreads := ReadsAll.cons (reads_lineEnd (α := α) _) <|
    (readsAll_forest doc.roots h.roots _).append <| (hspare _).append <|
      readsAll_edges h.connectors [token .rightBrace "\x7d", lineEnd]
  have hact : actAll (some 50) (.newline :: (forestClauses doc.roots ++ (spare ++ edges))) {} =
      some { roots := doc.reread.roots, connectors := doc.reread.connectors } := by
    have hspare (s : State α) : actAll (some 50) spare s = some s := by
      simp only [spare]
      split <;> rfl
    refine (?_ : actAll (some 50) (forestClauses doc.roots ++ (spare ++ edges)) {} = _)
    rw [actAll_append, actAll_forest doc.roots _ (by exact h.roots), Option.bind_some,
      attachAll_outside rfl, actAll_append, hspare, Option.bind_some, actAll_edges _ rfl]
    simp [Document.reread]
  refine ⟨_, .wrapped (o := token .leftBracket "[") (n := token .identifier doc.type.name)
    (c := token .rightBracket "]") rfl ?_ rfl rfl rfl hreads rfl rfl hact rfl, rfl, ?_⟩
  · exact ofName?_type doc.type
  · simp [State.document, State.forest, openRoot, Document.reread]

/-- A legible document is written, and read back. -/
theorem parse_legible {doc : Document α} (h : doc.IsLegible) :
    ∃ text, Print.document doc = .ok text ∧ ∀ file, parse text file = .ok doc.reread := by
  obtain ⟨text, htext, hcut⟩ := cut_document (h.roots.mono fun c hc => hc.toIsWellFormed)
    fun c hc => cut_connectorText (h.connectors c hc).toIsWellFormed
  obtain ⟨s, hs, hd, he⟩ := accepts_document h
  refine ⟨text, htext, fun file => ?_⟩
  rw [← he]
  exact parse_of_accepts (hcut ▸ hs) hd file

end Print

/-- A canonical document is legible, if the coordinates that pass can be written. -/
theorem Document.IsCanonical.isLegible {whole : α → Prop} (hw : ∀ x, whole x → IsWritable x)
    {doc : Document α} (h : doc.IsCanonical whole) : doc.IsLegible := by
  refine ⟨h.roots.mono fun c hc => hc.mono hw, fun c hc => ?_⟩
  obtain ⟨place, hplace⟩ := List.mem_iff_getElem?.mp hc
  exact (h.connectors (c, place) (List.mk_mem_zipIdx_iff_getElem?.mpr hplace)).isLegible

/-! ## Documents of doubles -/

def Component.unsigned (c : Component Float) : Component Float :=
  { c with x := c.x.map unsignedZero, y := c.y.map unsignedZero }

/-- The document, where a zero coordinate has no sign. -/
def Document.unsigned (doc : Document Float) : Document Float :=
  { doc with roots := Tree.forestMap Component.unsigned doc.roots }

theorem IsWhole.isWritable {x : Float} (h : IsWhole x) : IsWritable x := by
  obtain ⟨n, hn, hy⟩ := h.coordinate
  exact ⟨n, _, hn, hy⟩

theorem IsWhole.reread {x : Float} (h : IsWhole x) : reread x = unsignedZero x := by
  obtain ⟨n, hn, hy⟩ := h.coordinate
  have hi : integerOf x = n := by rw [integerOf, hn]; rfl
  rw [ComponentDiagram.reread, hi, hy]

theorem Component.IsWellFormed.reread {c : Component Float} (h : c.IsWellFormed IsWhole) :
    c.reread = c.unsigned := by
  rw [Component.reread, Component.unsigned]
  rcases h.place with ⟨hx, hy⟩ | ⟨x, y, hx, hy, hwx, hwy⟩
  · rw [hx, hy]
    rfl
  · rw [hx, hy, Option.map_some, Option.map_some, hwx.reread, hwy.reread]
    rfl

/-- The source of a canonical document is read as the document. -/
theorem parse_canonical {doc : Document Float} (h : doc.IsCanonical IsWhole) :
    ∃ text, Print.document doc = .ok text ∧ ∀ file, parse text file = .ok doc.unsigned := by
  have hlegible : doc.IsLegible := by
    refine ⟨h.roots.mono fun c hc => hc.mono fun _ => IsWhole.isWritable, fun c hc => ?_⟩
    obtain ⟨place, hplace⟩ := List.mem_iff_getElem?.mp hc
    exact (h.connectors (c, place) (List.mk_mem_zipIdx_iff_getElem?.mpr hplace)).isLegible
  have hroots : Tree.forestMap Component.reread doc.roots =
      Tree.forestMap Component.unsigned doc.roots :=
    Tree.forestMap_congr h.roots fun c hc => hc.toIsWellFormed.reread
  have hconnectors : doc.connectors.zipIdx.map (fun p => p.1.reread p.2) = doc.connectors := by
    refine (List.map_congr_left fun p hp => (h.connectors p hp).reread).trans ?_
    exact List.zipIdx_map_fst 0 doc.connectors
  have hreread : doc.reread = doc.unsigned := by
    rw [Document.reread, Document.unsigned, hroots, hconnectors, ← h.diagnostics]
  rw [← hreread]
  exact parse_legible hlegible

/-- A component with a port, and one inside it that is connected to the port. -/
def nestedPair : Document Float :=
  { roots := [.node
      { id := "a", label := "Outer box", x := some (Float.ofBits 0x4024000000000000),
        y := some (Float.ofBits 0xC000000000000000),
        ports := [{ id := "p", side := .left, label := some "" }] }
      [.node { id := "b" } []]]
    connectors := [{ kind := .delegate, id := "edge-0", source := ⟨"a", some "p"⟩,
                     target := ⟨"b", none⟩, label := some "uses" }] }

theorem parse_canonical_nestedPair : nestedPair.IsCanonical IsWhole ∧
    ∃ text, Print.document nestedPair = .ok text ∧
      ∀ file, parse text file = .ok nestedPair.unsigned := by
  have hcanonical : nestedPair.IsCanonical IsWhole := by decide +kernel
  exact ⟨hcanonical, parse_canonical hcanonical⟩

example : Print.document nestedPair = .ok ("[uml2.5-component] \x7b\n" ++
    "    [a] Outer box @ 10,-2 \x7b\n        port [p] on [a] left :\n        [b]\n    \x7d\n\n" ++
    "    a.p ->delegate-> b : uses\n\x7d\n") := by
  decide +kernel

end ComponentDiagram
