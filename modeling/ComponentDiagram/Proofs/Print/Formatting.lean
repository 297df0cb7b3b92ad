import ComponentDiagram.Proofs.Print.EdgeLines
import ComponentDiagram.Proofs.Print.InnerLines

/-! Formatting: when the source of a document that was read can be read, and printed again. -/
namespace ComponentDiagram
open Source Grammar Print

variable {α : Type} [Scalar α]

/-- The connector is written like a component without a block. -/
def Connector.IsHeadLine (α : Type) [Scalar α] (c : Connector) : Prop :=
  ∃ head : Component α, head.IsCanonical IsCoordinate ∧ head.ports = [] ∧
    headText head = .ok (connectorText c)

/-- The component has no block, and is written like a connector. -/
def IsEdgeLine (t : ComponentTree α) : Prop :=
  t.children = [] ∧ t.value.ports = [] ∧
    ∃ place c, Connector.IsCanonical place c ∧ headText t.value = .ok (connectorText c)

namespace Print

/-! ## Connectors with one text -/

/-- The tokens of a connector before the one that draws it. -/
private def frontTokens (c : Connector) : List Token :=
  c.name.toList.flatMap bracketTokens ++
    (c.interfaceName.toList.map (token .identifier) ++ cut (endpointText c.source).toList)

private theorem connectorTokens_eq (c : Connector) : connectorTokens c =
    frontTokens c ++ token (drawnKind c.kind) c.kind.text ::
      (cut (endpointText c.target).toList ++ labelTokens c.label) := by
  simp [connectorTokens, frontTokens]

private theorem front_plain {place : Nat} {c : Connector} (h : c.IsRead place) :
    ∀ t ∈ frontTokens c, t.kind.isConnector = false := by
  rw [frontTokens]
  simp only [List.mem_append, List.mem_flatMap, List.mem_map]
  rintro t (⟨n, -, ht⟩ | ⟨n, -, rfl⟩ | ht)
  · simp only [bracketTokens, List.mem_cons, List.not_mem_nil, or_false] at ht
    rcases ht with rfl | rfl | rfl <;> rfl
  · rfl
  · rcases h.source.cut_text with he | ⟨k, hk, he⟩
    · rw [he] at ht
      cases ht
    · rw [he, List.mem_singleton] at ht
      subst ht
      cases k <;> first | rfl | cases hk

private theorem append_cons_inj {β : Type} {p : β → Bool} {a b c d : List β} {x y : β}
    (ha : ∀ t ∈ a, p t = false) (hb : ∀ t ∈ b, p t = false) (hx : p x = true) (hy : p y = true)
    (h : a ++ x :: c = b ++ y :: d) : a = b ∧ c = d := by
  induction a generalizing b with
  | nil =>
    cases b with
    | nil => exact ⟨rfl, (List.cons.inj h).2⟩
    | cons t b =>
      rw [(List.cons.inj h).1, hb t (List.mem_cons_self ..)] at hx
      cases hx
  | cons s a ih =>
    cases b with
    | nil =>
      rw [← (List.cons.inj h).1, ha s (List.mem_cons_self ..)] at hy
      cases hy
    | cons t b =>
      obtain ⟨rfl, htail⟩ := List.cons.inj h
      obtain ⟨rfl, rfl⟩ := ih (fun t ht => ha t (List.mem_cons_of_mem s ht))
        (fun t ht => hb t (List.mem_cons_of_mem _ ht)) htail
      exact ⟨rfl, rfl⟩

private theorem last_brackets (name : Option String) :
    ∀ t ∈ (name.toList.flatMap bracketTokens).getLast?, t.kind = .rightBracket := by
  cases name <;> simp [bracketTokens, token]

private theorem brackets_inj {name name' : Option String}
    (h : name.toList.flatMap bracketTokens = name'.toList.flatMap bracketTokens) : name = name' := by
  cases name <;> cases name' <;> simp_all [bracketTokens, token]

private theorem isIdentifier_of_cut {k : TokenKind} {s : String} (h : cut s.toList = [token k s])
    (hk : k = .identifier) : IsIdentifier s := by
  subst hk
  exact (isValue_iff (by decide) (by decide)).mpr h

/-- A second space stands where a legible connector is drawn. -/
private theorem text_ne {c c' : Connector} (h : c.IsWellFormed) (h' : c'.IsWellFormed)
    (hname : c.name = c'.name) {n : String} (hn : c.interfaceName = some n)
    (hn' : c'.interfaceName = none) (hs : endpointText c.source = "")
    (hs' : endpointText c'.source = n) : connectorText c ≠ connectorText c' := by
  intro he
  obtain ⟨d, tail, hkind, hd, -⟩ := spells_drawn h'.symbol
  rw [connectorText, connectorText, nonempty?_of_identifier h.name,
    nonempty?_of_identifier h'.name, nonempty?_of_identifier h.interfaceName,
    nonempty?_of_identifier h'.interfaceName, hname, hn, hn', hs, hs', ← String.toList_inj] at he
  generalize c'.name = name at he
  cases name <;> simp [hkind] at he <;>
    · rw [← he.1] at hd
      cases hd

/-- A connector that is written like a legible one is legible. -/
theorem isLegible_of_text {place place' : Nat} {c c' : Connector} (h : c.IsRead place)
    (h' : c'.IsRead place') (hl : c'.IsLegible) (he : connectorText c = connectorText c') :
    c.IsLegible := by
  have htokens : connectorTokens c = connectorTokens c' := by
    rw [← cut_connectorText h.toIsWellFormed, he, cut_connectorText h'.toIsWellFormed]
  rw [connectorTokens_eq, connectorTokens_eq] at htokens
  obtain ⟨hfront, hback⟩ := append_cons_inj (front_plain h) (front_plain h')
    (isConnector_drawnKind c.kind) (isConnector_drawnKind c'.kind) htokens
  rw [frontTokens, frontTokens, ← List.append_assoc, ← List.append_assoc,
    cut_of_spells (hl.source.spells (by decide) (by decide))] at hfront
  rw [cut_of_spells (hl.target.spells (by decide) (by decide))] at hback
  refine ⟨h.toIsWellFormed, ?_, ?_⟩
  · rcases h.source.cut_text with hnil | ⟨k, -, hk⟩
    · rw [hnil, String.toList_empty, cut_nil, List.append_nil] at hfront
      exfalso
      cases hn : c.interfaceName with
      | none =>
        have hlast := last_brackets c.name (token .identifier (endpointText c'.source))
        rw [hn, Option.toList_none, List.map_nil, List.append_nil] at hfront
        rw [hfront] at hlast
        cases hlast (by simp)
      | some n =>
        rw [hn, Option.toList_some, List.map_singleton] at hfront
        obtain ⟨hnames, hends⟩ := List.append_inj' hfront rfl
        cases hn' : c'.interfaceName with
        | none =>
          rw [hn', Option.toList_none, List.map_nil, List.append_nil] at hnames
          have htext := congrArg Token.text (List.cons.inj hends).1
          exact text_ne h.toIsWellFormed h'.toIsWellFormed (brackets_inj hnames) hn hn' hnil
            htext.symm he
        | some m =>
          have hlast := last_brackets c.name (token .identifier m)
          rw [hnames, hn'] at hlast
          cases hlast (by simp)
    · rw [hk] at hfront
      obtain ⟨-, hends⟩ := List.append_inj' hfront rfl
      exact isIdentifier_of_cut hk (congrArg Token.kind (List.cons.inj hends).1)
  · rcases h.target.cut_text with hnil | ⟨k, -, hk⟩
    · rw [hnil, String.toList_empty, cut_nil, List.nil_append] at hback
      cases hlabel : c.label <;> rw [hlabel, labelTokens] at hback <;> cases hback
    · rw [hk] at hback
      exact isIdentifier_of_cut hk (congrArg Token.kind (List.cons.inj hback).1)

/-! ## Components with one source -/

mutual

private theorem tree_edges : (t : ComponentTree α) → ∀ c ∈ treeClauses t, c.isEdge = false
  | .node c children => by
    have hforest := forest_edges children
    rw [treeClauses]
    split
    · simp [headClause, Clause.isEdge]
    · simp only [portsClauses, List.mem_cons, List.mem_append, List.mem_flatMap, List.not_mem_nil,
        or_false]
      rintro k (rfl | rfl | ⟨p, -, rfl | rfl⟩ | hk | rfl | rfl)
      · rfl
      · rfl
      · rfl
      · rfl
      · exact hforest k hk
      · rfl
      · rfl

private theorem forest_edges : (ts : List (ComponentTree α)) →
    ∀ c ∈ forestClauses ts, c.isEdge = false
  | [] => by simp [forestClauses]
  | t :: ts => by
    intro c hc
    rw [forestClauses] at hc
    rcases List.mem_append.mp hc with hc | hc
    · exact tree_edges t c hc
    · exact forest_edges ts c hc

end

/-- Components that are written like canonical ones are canonical. -/
theorem isCanonical_of_lines {ts ts' : List (ComponentTree α)} {depth : Nat} {lines : List String}
    (h : Tree.ForestAllBelow 50 (Component.IsWellFormed IsWritable) 0 ts)
    (h' : Tree.ForestAllBelow 50 (Component.IsCanonical IsWritable) 0 ts')
    (hl : forestLines depth ts = .ok lines) (hl' : forestLines depth ts' = .ok lines) :
    Tree.ForestAllBelow 50 (Component.IsCanonical IsWritable) 0 ts := by
  have htokens {us : List (ComponentTree α)}
      (hu : Tree.ForestAllBelow 50 (Component.IsWellFormed IsWritable) 0 us)
      (hw : forestLines depth us = .ok lines) : linesTokens lines = forestTokens us := by
    obtain ⟨lines', hw', ht⟩ := forestLines_tokens depth us hu
    cases hw.symm.trans hw'
    exact ht
  have hread := (readsAll_forest ts' h' []).edgeLines
  have hwritten := edgeLines_forest ts []
  have hsame : forestTokens ts = forestTokens ts' :=
    (htokens h hl).symm.trans (htokens (h'.mono fun _ hc => hc.toIsWellFormed) hl')
  have hnone : (forestClauses ts').countP Clause.isEdge = 0 := by
    rw [List.countP_eq_zero]
    intro c hc
    simp [forest_edges ts' c hc]
  have hend : edgeLines [] = 0 := rfl
  rw [hnone, hend] at hread
  rw [hsame, hend] at hwritten
  have hzero : (Tree.values ts).countP readsAsEdge = 0 := by omega
  have hedge : ∀ c ∈ Tree.values ts, readsAsEdge c = false := by
    simpa [List.countP_eq_zero] using hzero
  exact h.and_values hedge fun c hw he => ⟨hw, he⟩

/-! ## Components without a block -/

/-- A component without a block, and its line. -/
def IsLeafLine (depth : Nat) (t : ComponentTree α) (line : String) : Prop :=
  t.children = [] ∧ t.value.ports = [] ∧
    ∃ head, headText t.value = .ok head ∧ line = indent depth ++ head

theorem forestLines_of_leaves {depth : Nat} {ts : List (ComponentTree α)} {lines : List String}
    (h : List.Forall₂ (IsLeafLine depth) ts lines) : forestLines depth ts = .ok lines := by
  induction h with
  | nil => rfl
  | @cons t line ts lines ht _ ih =>
    obtain ⟨c, children⟩ := t
    obtain ⟨hchildren, hports, head, hhead, rfl⟩ := ht
    simp only [Tree.children, Tree.value] at hchildren hports hhead
    rw [forestLines, treeLines, hhead, ih, hchildren, hports]
    rfl

/-- Where no line closes a block, no component has one. -/
theorem leaves_of_forestLines {limit level depth : Nat} {ts : List (ComponentTree α)}
    {lines : List String}
    (h : Tree.ForestAllBelow limit (Component.IsWellFormed IsWritable) level ts)
    (hl : forestLines depth ts = .ok lines) (hn : indent depth ++ "\x7d" ∉ lines) :
    List.Forall₂ (IsLeafLine depth) ts lines := by
  induction ts generalizing lines with
  | nil =>
    cases hl
    exact .nil
  | cons t ts ih =>
    rw [Tree.ForestAllBelow] at h
    obtain ⟨others, hothers, -⟩ := forestLines_tokens depth ts h.2
    obtain ⟨c, children⟩ := t
    have ht := h.1
    rw [Tree.AllBelow] at ht
    obtain ⟨⟨hc, -⟩, hchildren⟩ := ht
    obtain ⟨head, hhead, -⟩ := cut_headText hc
    obtain ⟨inside, hinside, -⟩ := forestLines_tokens (depth + 1) children hchildren
    rw [forestLines, treeLines, hhead, hothers] at hl
    cases hempty : children.isEmpty && c.ports.isEmpty with
    | true =>
      simp only [hempty] at hl
      cases hl
      obtain ⟨hnil, hports⟩ := Bool.and_eq_true_iff.mp hempty
      refine .cons ⟨List.isEmpty_iff.mp hnil, List.isEmpty_iff.mp hports, head, hhead, rfl⟩ ?_
      exact ih h.2 hothers fun hmem => hn (List.mem_append_right _ hmem)
    | false =>
      simp only [hempty] at hl
      rw [show forestLines (depth + 1) children = _ from hinside] at hl
      cases hl
      exact absurd (by simp) hn

/-! ## Documents with one source -/

/-- The lines of connectors. -/
def edgeTexts (cs : List Connector) : List String := cs.map fun c => indent 1 ++ connectorText c

/-- A source from its lines. -/
def sourceOf (type : DiagramType) (body : List String) : String :=
  "\n".intercalate ([s!"[{type.name}] \x7b"] ++ body ++ ["\x7d"]) ++ "\n"

theorem document_of_lines {doc : Document α} {inside : List String}
    (h : forestLines 1 doc.roots = .ok inside) : Print.document doc = .ok (sourceOf doc.type (inside ++
      (if doc.roots.isEmpty || doc.connectors.isEmpty then [] else [""]) ++
        edgeTexts doc.connectors)) := by
  rw [Print.document, documentLines, h]
  simp [sourceOf, edgeTexts]

private theorem source_lines {doc : Document α} (h : doc.IsRead) (hα : ReadsBack α) {text : String}
    (ht : Print.document doc = .ok text) : ∃ inside, forestLines 1 doc.roots = .ok inside ∧
      (∀ l ∈ inside, IsInner l) ∧ (∀ l ∈ edgeTexts doc.connectors, IsInner l) ∧
      text = sourceOf doc.type (inside ++
        (if doc.roots.isEmpty || doc.connectors.isEmpty then [] else [""]) ++
          edgeTexts doc.connectors) := by
  obtain ⟨inside, hinside, -⟩ := forestLines_tokens 1 doc.roots (h.isWellFormed hα)
  refine ⟨inside, hinside, inner_forest Nat.one_pos (h.isWellFormed hα) hinside, ?_, ?_⟩
  · intro l hl
    obtain ⟨c, hc, rfl⟩ := List.mem_map.mp hl
    obtain ⟨place, hplace⟩ := h.connector hc
    exact isInner_indent Nat.one_pos (isLine_connector hplace)
  · exact Except.ok.inj (ht.symm.trans (document_of_lines hinside))

private theorem line_of_inner (type : DiagramType) (gap : Bool) {a b : List String}
    (ha : ∀ l ∈ a, IsInner l) (hb : ∀ l ∈ b, IsInner l) :
    ∀ l ∈ [s!"[{type.name}] \x7b"] ++ (a ++ (if gap then [] else [""]) ++ b) ++ ["\x7d"],
      IsLine l := by
  intro l hl
  simp only [List.mem_append, List.mem_singleton] at hl
  rcases hl with (rfl | (hl | hl) | hl) | rfl
  · cases type <;> decide
  · exact (ha l hl).line
  · cases gap with
    | true => cases hl
    | false =>
      obtain rfl := List.mem_singleton.mp hl
      decide
  · exact (hb l hl).line
  · decide

/-- Without a gap no line is empty. -/
private theorem empty_notMem {a b : List String} (ha : ∀ l ∈ a, IsInner l)
    (hb : ∀ l ∈ b, IsInner l) : "" ∉ a ++ [] ++ b := by
  intro hmem
  rw [List.append_nil] at hmem
  rcases List.mem_append.mp hmem with hmem | hmem
  · exact (ha _ hmem).ne_empty rfl
  · exact (hb _ hmem).ne_empty rfl

/-- Documents with one source have the same lines for their components and for their connectors, or
one has its connectors where the other has its components. -/
theorem same_lines {doc doc' : Document α} (h : doc.IsRead) (h' : doc'.IsRead) (hα : ReadsBack α)
    {text : String} (ht : Print.document doc = .ok text) (ht' : Print.document doc' = .ok text) :
    ∃ inside inside', forestLines 1 doc.roots = .ok inside ∧ forestLines 1 doc'.roots = .ok inside' ∧
      ((inside = inside' ∧ edgeTexts doc.connectors = edgeTexts doc'.connectors) ∨
        (doc.roots = [] ∧ inside' = edgeTexts doc.connectors) ∨
        (doc.connectors = [] ∧ inside = edgeTexts doc'.connectors)) := by
  obtain ⟨inside, hinside, hin, hedge, rfl⟩ := source_lines h hα ht
  obtain ⟨inside', hinside', hin', hedge', htext⟩ := source_lines h' hα ht'
  refine ⟨inside, inside', hinside, hinside', ?_⟩
  have hbody := eq_of_text (line_of_inner _ _ hin hedge) (line_of_inner _ _ hin' hedge') (by simp)
    (by simp) htext
  simp only [List.cons_append, List.cons.injEq] at hbody
  have hbody := List.append_cancel_right hbody.2
  have hempty {ts : List (ComponentTree α)} {ls : List String} (hts : ts = [])
      (hl : forestLines 1 ts = .ok ls) : ls = [] := by
    subst hts
    cases hl
    rfl
  -- an empty line divides the lines of a document that has components and connectors
  cases hgap : doc.roots.isEmpty || doc.connectors.isEmpty <;>
    cases hgap' : doc'.roots.isEmpty || doc'.connectors.isEmpty <;>
    simp only [hgap, hgap', Bool.false_eq_true, if_false, if_true] at hbody
  · rw [List.append_assoc, List.append_assoc] at hbody
    have hne {ls : List String} (hl : ∀ l ∈ ls, IsInner l) : ∀ l ∈ ls, (l == "") = false :=
      fun l hmem => beq_eq_false_iff_ne.mpr (hl l hmem).ne_empty
    exact .inl (append_cons_inj (p := (· == "")) (hne hin) (hne hin') rfl rfl hbody)
  · exact absurd (by simp) (hbody ▸ empty_notMem hin' hedge')
  · exact absurd (by simp) (hbody ▸ empty_notMem hin hedge)
  · rw [List.append_nil, List.append_nil] at hbody
    rw [Bool.or_eq_true, List.isEmpty_iff, List.isEmpty_iff] at hgap hgap'
    rcases hgap with hroots | hnone <;> rcases hgap' with hroots' | hnone'
    · rw [hempty hroots hinside, hempty hroots' hinside'] at hbody ⊢
      exact .inl ⟨rfl, hbody⟩
    · rw [hempty hroots hinside, hnone'] at hbody
      simp only [edgeTexts, List.map_nil, List.append_nil, List.nil_append] at hbody
      exact .inr (.inl ⟨hroots, hbody.symm⟩)
    · rw [hempty hroots' hinside', hnone] at hbody
      simp only [edgeTexts, List.map_nil, List.append_nil, List.nil_append] at hbody
      exact .inr (.inr ⟨hnone, hbody⟩)
    · rw [hnone, hnone'] at hbody ⊢
      exact .inl ⟨List.append_cancel_right hbody, rfl⟩

/-! ## Sources that are read again -/

/-- The source of a legible document that was read is read as the document. -/
theorem parse_source {doc : Document α} (h : doc.IsRead) (hα : ReadsBack α) (hl : doc.IsLegible)
    {text : String} (ht : Print.document doc = .ok text) (file : Option Path) :
    parse text file = .ok doc.clean := by
  obtain ⟨text', ht', hparse⟩ := parse_legible hl
  cases ht.symm.trans ht'
  rw [h.reread hα] at hparse
  exact hparse file

/-- A document whose source is read as the document is legible. -/
theorem isLegible_of_source {doc doc' : Document α} (h : doc.IsRead) (hα : ReadsBack α)
    {text : String} (ht : Print.document doc = .ok text) {file : Option Path}
    (hp : parse text file = .ok doc') (hd : doc'.diagnostics = []) (hr : doc'.roots = doc.roots)
    (hc : doc'.connectors = doc.connectors) : doc.IsLegible := by
  obtain ⟨text', ht', hcut⟩ := h.printed hα
  cases ht.symm.trans ht'
  obtain ⟨s, ha, hscope, hroots, hconnectors, hdiagnostics⟩ := accepts_of_clean hp hd
  refine isLegible_of_accepts h hα (hcut ▸ ha) hdiagnostics ?_ (hconnectors.trans hc)
  rw [State.components, hscope, hroots, hr, Document.components]
  simp

/-- The source is read without a diagnostic, and printed again. -/
def IsStable (α : Type) [Scalar α] (text : String) (file : Option Path) : Prop :=
  ∃ doc : Document α, parse text file = .ok doc ∧ doc.diagnostics = [] ∧
    Print.document doc = .ok text

theorem isStable_of_legible {doc : Document α} (h : doc.IsRead) (hα : ReadsBack α)
    (hl : doc.IsLegible) {text : String} (ht : Print.document doc = .ok text)
    (file : Option Path) : IsStable α text file :=
  ⟨doc.clean, parse_source h hα hl ht file, rfl, ht⟩

/-- Components without a block that are written like connectors. -/
private theorem heads_of_connectors {cs : List Connector} (h : ∀ c ∈ cs, c.IsHeadLine α) :
    ∃ ts : List (ComponentTree α), List.Forall₂ (IsLeafLine 1) ts (edgeTexts cs) ∧
      Tree.ForestAllBelow 50 (Component.IsCanonical IsCoordinate) 0 ts := by
  induction cs with
  | nil => exact ⟨[], .nil, trivial⟩
  | cons c cs ih =>
    obtain ⟨⟨head, hcanonical, hports, htext⟩, hcs⟩ := List.forall_mem_cons.mp h
    obtain ⟨ts, hts, hroots⟩ := ih hcs
    exact ⟨.node head [] :: ts, .cons ⟨rfl, hports, _, htext, rfl⟩ hts,
      ⟨⟨hcanonical, by decide⟩, trivial⟩, hroots⟩

/-- Connectors that are written like components without a block. -/
private theorem connectors_of_heads {ts : List (ComponentTree α)} (h : ∀ t ∈ ts, IsEdgeLine t)
    (n : Nat) : ∃ cs : List Connector, List.Forall₂ (IsLeafLine 1) ts (edgeTexts cs) ∧
      ∀ p ∈ cs.zipIdx n, p.1.IsCanonical p.2 := by
  induction ts generalizing n with
  | nil => exact ⟨[], .nil, by simp⟩
  | cons t ts ih =>
    obtain ⟨⟨hchildren, hports, place, c, hc, htext⟩, hts⟩ := List.forall_mem_cons.mp h
    obtain ⟨cs, hlines, hcs⟩ := ih hts (n + 1)
    refine ⟨{ c with id := s!"edge-{n}" } :: cs,
      .cons ⟨hchildren, hports, _, htext, rfl⟩ hlines, ?_⟩
    rw [List.zipIdx_cons]
    exact List.forall_mem_cons.mpr
      ⟨⟨⟨hc.name, hc.interfaceName, hc.symbol, hc.label⟩, rfl, hc.origin, hc.source, hc.target⟩, hcs⟩

end Print

theorem Connector.IsCanonical.isRead {place : Nat} {c : Connector} (h : c.IsCanonical place) :
    c.IsRead place := by
  have hends {e : Endpoint} (he : e.IsCanonical) : e.IsRead :=
    ⟨e.written, he.written, by rw [← Endpoint.text_eq he.port, Endpoint.ofString_text he.dot he.port]⟩
  exact ⟨h.toIsWellFormed, h.id, h.origin, hends h.source, hends h.target⟩

theorem Connector.IsLegible.isCanonical {place : Nat} {c : Connector} (h : c.IsLegible)
    (hr : c.IsRead place) : c.IsCanonical place := by
  have hends {e : Endpoint} (he : e.IsRead) (hl : IsIdentifier (endpointText e)) : e.IsCanonical :=
    ⟨by rwa [← Endpoint.text_eq he.port], he.node, he.port⟩
  exact ⟨h.toIsWellFormed, hr.id, hr.origin, hends hr.source h.source, hends hr.target h.target⟩

namespace Print

private theorem edge_ne_closing {doc : Document α} (h : doc.IsRead) :
    indent 1 ++ "\x7d" ∉ edgeTexts doc.connectors := by
  intro hmem
  obtain ⟨c, hc, he⟩ := List.mem_map.mp hmem
  obtain ⟨place, hplace⟩ := h.connector hc
  have hcut := congrArg (fun s : String => cut s.toList) he
  have hclose : cut ("\x7d" : String).toList = [token .rightBrace "\x7d"] :=
    cut_delimiter (k := .rightBrace) rfl []
  simp only [cut_indented, cut_connectorText hplace.toIsWellFormed, hclose, connectorTokens_eq] at hcut
  have hdrawn := isConnector_drawnKind c.kind
  have hmem : token (drawnKind c.kind) c.kind.text ∈ [token .rightBrace "\x7d"] := by
    rw [← hcut]
    simp
  have hkind : drawnKind c.kind = .rightBrace := congrArg Token.kind (List.mem_singleton.mp hmem)
  rw [hkind] at hdrawn
  cases hdrawn

private theorem indent_inj {depth : Nat} {a b : String} (h : indent depth ++ a = indent depth ++ b) :
    a = b := by
  rw [← String.toList_inj, String.toList_append, String.toList_append] at h
  exact String.toList_inj.mp (List.append_cancel_left h)

omit [Scalar α] in
private theorem root_canonical {limit : Nat} {P : Component α → Prop} {ts : List (ComponentTree α)}
    (h : Tree.ForestAllBelow limit P 0 ts) : ∀ t ∈ ts, P t.value := by
  induction ts with
  | nil => simp
  | cons t ts ih =>
    rw [Tree.ForestAllBelow] at h
    refine List.forall_mem_cons.mpr ⟨?_, ih h.2⟩
    obtain ⟨c, children⟩ := t
    have ht := h.1
    rw [Tree.AllBelow] at ht
    exact ht.1.1

private theorem legible_of_lines {doc doc' : Document α} (h : doc.IsRead) (h' : doc'.IsRead)
    (hα : ReadsBack α) (hl' : doc'.IsLegible) {inside : List String}
    (hinside : forestLines 1 doc.roots = .ok inside)
    (hinside' : forestLines 1 doc'.roots = .ok inside)
    (hedges : edgeTexts doc.connectors = edgeTexts doc'.connectors) : doc.IsLegible := by
  refine ⟨isCanonical_of_lines (h.isWellFormed hα) hl'.roots hinside hinside', fun c hc => ?_⟩
  have hmem : indent 1 ++ connectorText c ∈ edgeTexts doc'.connectors := by
    rw [← hedges]
    exact List.mem_map.mpr ⟨c, hc, rfl⟩
  obtain ⟨c', hc', he⟩ := List.mem_map.mp hmem
  obtain ⟨place, hplace⟩ := h.connector hc
  obtain ⟨place', hplace'⟩ := h'.connector hc'
  exact isLegible_of_text hplace hplace' (hl'.connectors c' hc') (indent_inj he).symm

private theorem heads_of_lines {doc doc' : Document α} (h : doc.IsRead) (h' : doc'.IsRead)
    (hα : ReadsBack α) (hl' : doc'.IsLegible)
    (hinside' : forestLines 1 doc'.roots = .ok (edgeTexts doc.connectors)) :
    ∀ c ∈ doc.connectors, c.IsHeadLine α := by
  intro c hc
  have hleaves := leaves_of_forestLines (h'.isWellFormed hα) hinside' (edge_ne_closing h)
  have hcanonical : ∀ t ∈ doc'.roots, t.value.IsCanonical IsCoordinate := by
    intro t htree
    exact ⟨root_canonical h'.roots t htree, (root_canonical hl'.roots t htree).edge⟩
  have hline : indent 1 ++ connectorText c ∈ edgeTexts doc.connectors :=
    List.mem_map.mpr ⟨c, hc, rfl⟩
  obtain ⟨t, htree, -, hports, head, hhead, he⟩ := exists_mem_of_forall₂ hleaves hline
  cases indent_inj he
  exact ⟨t.value, hcanonical t htree, hports, hhead⟩

private theorem edges_of_lines {doc doc' : Document α} (h : doc.IsRead) (h' : doc'.IsRead)
    (hα : ReadsBack α) (hl' : doc'.IsLegible)
    (hinside : forestLines 1 doc.roots = .ok (edgeTexts doc'.connectors)) :
    ∀ t ∈ doc.roots, IsEdgeLine t := by
  intro t htree
  have hleaves := leaves_of_forestLines (h.isWellFormed hα) hinside (edge_ne_closing h')
  obtain ⟨line, hline, hchildren, hports, head, hhead, rfl⟩ :=
    exists_mem_of_forall₂ hleaves.flip htree
  obtain ⟨c, hc, he⟩ := List.mem_map.mp hline
  obtain ⟨place, hplace⟩ := h'.connector hc
  cases indent_inj he
  exact ⟨hchildren, hports, place, c, (hl'.connectors c hc).isCanonical hplace, hhead⟩

/-- Connectors whose lines are lines of components are read as these, and the source stays. -/
theorem isStable_of_heads {doc : Document α} (hα : ReadsBack α) {text : String}
    (ht : Print.document doc = .ok text) (file : Option Path) (hroots : doc.roots = [])
    (hheads : ∀ c ∈ doc.connectors, c.IsHeadLine α) : IsStable α text file := by
  obtain ⟨ts, hleaves, hts⟩ := heads_of_connectors hheads
  let doc' : Document α := { type := doc.type, roots := ts }
  have h' : doc'.IsRead := ⟨hts.mono fun c hc => hc.toIsWellFormed, by simp [doc']⟩
  have hl' : doc'.IsLegible :=
    ⟨hts.mono fun c hc => hc.mono fun x hx => (hα x hx).1, by simp [doc']⟩
  refine isStable_of_legible h' hα hl' ?_ file
  have hinside : forestLines 1 doc.roots = .ok [] := by rw [hroots]; rfl
  rw [← ht, document_of_lines hinside, @document_of_lines _ _ doc' _ (forestLines_of_leaves hleaves)]
  simp [doc', hroots, edgeTexts]

/-- Components whose lines are lines of connectors are read as these, and the source stays. -/
theorem isStable_of_edges {doc : Document α} (hα : ReadsBack α) {text : String}
    (ht : Print.document doc = .ok text) (file : Option Path) (hnone : doc.connectors = [])
    (hedges : ∀ t ∈ doc.roots, IsEdgeLine t) : IsStable α text file := by
  obtain ⟨cs, hleaves, hcs⟩ := connectors_of_heads hedges 0
  let doc' : Document α := { type := doc.type, connectors := cs }
  have h' : doc'.IsRead := ⟨trivial, fun p hp => (hcs p hp).isRead⟩
  have hl' : doc'.IsLegible := by
    refine ⟨trivial, fun c hc => ?_⟩
    obtain ⟨place, hplace⟩ := List.mem_iff_getElem?.mp hc
    exact (hcs (c, place) (List.mk_mem_zipIdx_iff_getElem?.mpr hplace)).isLegible
  refine isStable_of_legible h' hα hl' ?_ file
  rw [← ht, document_of_lines (forestLines_of_leaves hleaves), @document_of_lines _ _ doc' _ rfl]
  simp [doc', hnone, edgeTexts]

/-- The source of a document that was read is stable if the document is legible, or if each of its
lines can be taken for a component as well as for a connector. -/
theorem isStable_iff {doc : Document α} (h : doc.IsRead) (hα : ReadsBack α) {text : String}
    (ht : Print.document doc = .ok text) (file : Option Path) :
    IsStable α text file ↔ doc.IsLegible ∨
      (doc.roots = [] ∧ ∀ c ∈ doc.connectors, c.IsHeadLine α) ∨
      (doc.connectors = [] ∧ ∀ t ∈ doc.roots, IsEdgeLine t) := by
  constructor
  · rintro ⟨doc', hp, hd, ht'⟩
    have h' := parse_isRead hp
    have hl' := isLegible_of_source h' hα ht' hp hd rfl rfl
    obtain ⟨inside, inside', hinside, hinside', hlines⟩ := same_lines h h' hα ht ht'
    rcases hlines with ⟨rfl, hedges⟩ | ⟨hroots, rfl⟩ | ⟨hnone, rfl⟩
    · exact .inl (legible_of_lines h h' hα hl' hinside hinside' hedges)
    · exact .inr (.inl ⟨hroots, heads_of_lines h h' hα hl' hinside'⟩)
    · exact .inr (.inr ⟨hnone, edges_of_lines h h' hα hl' hinside⟩)
  · rintro (hl | ⟨hroots, hheads⟩ | ⟨hnone, hedges⟩)
    · exact isStable_of_legible h hα hl ht file
    · exact isStable_of_heads hα ht file hroots hheads
    · exact isStable_of_edges hα ht file hnone hedges

end Print

/-- What formatting makes of a text that was read. It can be read and is printed again exactly if
the document is legible, or if it has only lines that can be taken for a component as well as for a
connector. It is read as the document exactly if the document is legible. -/
theorem format_stable_iff {text : String} {file : Option Path} {doc : Document Float}
    (h : parse text file = .ok doc) : ∃ source, Print.document doc = .ok source ∧ ∀ file',
      (IsStable Float source file' ↔ doc.IsLegible ∨
        (doc.roots = [] ∧ ∀ c ∈ doc.connectors, c.IsHeadLine Float) ∨
        (doc.connectors = [] ∧ ∀ t ∈ doc.roots, IsEdgeLine t)) ∧
      (parse source file' = .ok doc.clean ↔ doc.IsLegible) := by
  have hread := parse_isRead h
  obtain ⟨source, hsource, -⟩ := hread.printed readsBack_float
  refine ⟨source, hsource, fun file' => ⟨isStable_iff hread readsBack_float hsource file', ?_⟩⟩
  constructor
  · intro hp
    exact isLegible_of_source hread readsBack_float hsource hp rfl rfl rfl
  · intro hl
    exact parse_source hread readsBack_float hl hsource file'

/-- A text with a single connector, which starts at an end without a port. -/
theorem format_stable_iff_edge : ∃ doc : Document Float, parse "a. -> b" none = .ok doc ∧
    ∃ source, Print.document doc = .ok source ∧ ∀ file',
      (IsStable Float source file' ↔ doc.IsLegible ∨
        (doc.roots = [] ∧ ∀ c ∈ doc.connectors, c.IsHeadLine Float) ∨
        (doc.connectors = [] ∧ ∀ t ∈ doc.roots, IsEdgeLine t)) ∧
      (parse source file' = .ok doc.clean ↔ doc.IsLegible) := by
  have hread : ((parse "a. -> b" none : Except Failure (Document Float)).toOption).isSome := by
    decide +kernel
  obtain ⟨doc, hdoc⟩ := Option.isSome_iff_exists.mp hread
  exact ⟨doc, ok_of_toOption hdoc, format_stable_iff (ok_of_toOption hdoc)⟩

/-- An end is written without the dot that nothing follows, and what is left may be a keyword. -/
theorem format_breaks_port : ∃ (doc : Document Float) (source : String),
    parse "port. -> b\n" none = .ok doc ∧ Print.document doc = .ok source ∧
      ∀ doc' : Document Float, parse source none ≠ .ok doc' := by
  have hprinted : ((parse "port. -> b\n" none : Except Failure (Document Float)).toOption.bind
      fun doc => (Print.document doc).toOption) =
        some "[uml2.5-component] \x7b\n    port -> b\n\x7d\n" := by
    decide +kernel
  have hrefused : ((parse "[uml2.5-component] \x7b\n    port -> b\n\x7d\n" none :
      Except Failure (Document Float)).toOption).isNone := by
    decide +kernel
  obtain ⟨doc, hdoc, hsource⟩ := Option.bind_eq_some_iff.mp hprinted
  refine ⟨doc, "[uml2.5-component] \x7b\n    port -> b\n\x7d\n", ok_of_toOption hdoc,
    ok_of_toOption hsource, fun doc' hp => ?_⟩
  rw [hp] at hrefused
  cases hrefused

end ComponentDiagram
