import ComponentDiagram.Proofs.Build.FlatView
import ComponentDiagram.Proofs.Print.ConnectorLines
import ComponentDiagram.Proofs.Print.HeadLines
import ComponentDiagram.Proofs.Print.InnerLines
import ComponentDiagram.Proofs.Text.Lines

/-! Positions that are written into the source of a document, line by line, are those of the
document with its positions changed. -/
namespace ComponentDiagram.Print
open Source

variable {α : Type} [Scalar α]

/-! ## Heads -/

/-- A head is written with its position, if it has one. -/
theorem headText_eq {c : Component α} (h : c.IsWellFormed IsWritable) : ∃ head place,
    headText c = .ok head ∧ IsPlaceText place ∧ head.toList =
      '[' :: (c.id.toList ++ ']' :: ((labelPart c).toList ++ place)) := by
  rcases h.place with ⟨hx, hy⟩ | ⟨x, y, hx, hy, hwx, hwy⟩
  · refine ⟨s!"[{c.id}]{labelPart c}" ++ "", [], ?_, .absent, ?_⟩
    · simp only [headText, hx, hy]
      rfl
    · simp [toString_self]
  · refine ⟨s!"[{c.id}]{labelPart c}" ++ s!" @ {integerOf x},{integerOf y}", _, ?_,
      .present (integerOf x) (integerOf y), ?_⟩
    · simp only [headText, hx, hy, placeText, coordinate, hwx.integer, hwy.integer]
      rfl
    · simp [toString_self]

theorem headText_placed {c : Component α} {x y : α} (hx : c.x = some x) (hy : c.y = some y)
    {place : String} (hp : placeText x y = .ok place) : ∃ head, headText c = .ok head ∧
      head.toList = '[' :: (c.id.toList ++ ']' :: ((labelPart c).toList ++ place.toList)) := by
  refine ⟨s!"[{c.id}]{labelPart c}" ++ place, ?_, ?_⟩
  · simp only [headText, hx, hy, hp]
    rfl
  · simp [toString_self]

/-! ## Lines -/

/-- A line is rewritten as another one. -/
def Patches (d : Diagram α) (line line' : String) : Prop :=
  patchLine d line.toList = .ok line'.toList

theorem patches_self {d : Diagram α} {line : String} (h : nodeOnLine? d line.toList = none) :
    Patches d line line := by
  rw [Patches, patchLine, h]

theorem patches_of_nodeLine? {d : Diagram α} {line : String} (h : nodeLine? line.toList = none) :
    Patches d line line := by
  refine patches_self ?_
  rw [nodeOnLine?, h]
  rfl

/-- A line with a connector stays as it is. -/
theorem patches_connector (d : Diagram α) {line : String}
    (h : isConnectorLine line.toList = true) : Patches d line line := by
  refine patches_self ?_
  rw [nodeOnLine?, h]
  cases nodeLine? line.toList with
  | none => rfl
  | some parts =>
    simp only [Option.bind_eq_bind, Option.bind_some, if_true]
    cases d.node? (String.ofList parts.id) <;> rfl

/-- A component with the position and the size that a diagram gives it. -/
def synced (d : Diagram α) (c : Component α) : Component α :=
  match d.node? c.id with
  | some n => { c with x := some n.x, y := some n.y, width := n.width, height := n.height }
  | none => c

/-- A component whose line is rewritten. -/
structure IsPatchable (d : Diagram α) (c : Component α) : Prop extends
    c.IsWellFormed IsWritable where
  plain : ∀ t ∈ cut c.label.toList, t.kind.isConnector = false
  placed : ∃ n place, d.node? c.id = some n ∧ placeText n.x n.y = .ok place

/-- No connector stands on the line of a head. -/
private theorem head_plain {d : Diagram α} {c : Component α} (h : IsPatchable d c) (depth : Nat)
    {place : List Char} {opens : Bool} {head : String} (hh : headText c = .ok head)
    (hline : headLine depth c place opens =
      (indent depth).toList ++ (head.toList ++ if opens then [' ', '\x7b'] else [])) :
    isConnectorLine (headLine depth c place opens) = false := by
  obtain ⟨head', hh', hcut⟩ := cut_headText h.toIsWellFormed
  rw [hh] at hh'
  cases hh'
  have htail : ∀ e ∈ (if opens then [' ', '\x7b'] else []).head?, e = ' ' := by
    cases opens <;> simp
  have hbrace : ∀ t ∈ cut (if opens then [' ', '\x7b'] else []), t.kind.isConnector = false := by
    cases opens
    · simp
    · rw [if_pos rfl, cut_space, cut_delimiter (k := .leftBrace) rfl, cut_nil]
      simp [lexemeToken, TokenKind.isConnector]
  have hname : ∀ t ∈ bracketTokens c.id, t.kind.isConnector = false := by
    simp [bracketTokens, token, TokenKind.isConnector]
  have hplace : ∀ t ∈ placeTokens (writtenPlace c), t.kind.isConnector = false := by
    cases writtenPlace c <;> simp [placeTokens, token, TokenKind.isConnector]
  rw [Bool.eq_false_iff, Ne, isConnectorLine_iff, hline, cut_indent, hcut _ htail, headTokens]
  rintro ⟨t, ht, hk⟩
  simp only [List.mem_append] at ht
  rcases ht with (ht | ht | ht) | ht
  · rw [hname t ht] at hk
    cases hk
  · rw [h.plain t ht] at hk
    cases hk
  · rw [hplace t ht] at hk
    cases hk
  · rw [hbrace t ht] at hk
    cases hk

/-- The line of a head is rewritten with the position that the diagram gives its component. -/
theorem patches_head {d : Diagram α} {c : Component α} (h : IsPatchable d c) : ∃ head moved,
    headText c = .ok head ∧ headText (synced d c) = .ok moved ∧
      ∀ depth, Patches d (indent depth ++ head) (indent depth ++ moved) ∧
        Patches d s!"{indent depth}{head} \x7b" s!"{indent depth}{moved} \x7b" := by
  obtain ⟨n, other, hn, hother⟩ := h.placed
  obtain ⟨head, place, hhead, hplace, htext⟩ := headText_eq h.toIsWellFormed
  obtain ⟨moved, hmoved, htext'⟩ : ∃ moved, headText (synced d c) = .ok moved ∧
      moved.toList = '[' :: (c.id.toList ++ ']' :: ((labelPart c).toList ++ other.toList)) := by
    rw [synced, hn]
    exact headText_placed rfl rfl hother
  refine ⟨head, moved, hhead, hmoved, fun depth => ?_⟩
  have hpatch (opens : Bool) : patchLine d (headLine depth c place opens) =
      .ok (headLine depth c other.toList opens) := by
    have hline : headLine depth c place opens =
        (indent depth).toList ++ (head.toList ++ if opens then [' ', '\x7b'] else []) := by
      rw [headLine, htext]
      simp
    have hplain := head_plain h depth hhead hline
    obtain ⟨parts, hparts, hid, hpatched⟩ := patched_head depth h.id h.label hplace opens
    have hnode : nodeOnLine? d (headLine depth c place opens) = some (parts, n) := by
      rw [nodeOnLine?, hparts, hplain]
      simp only [Option.bind_eq_bind, Option.bind_some, hid, String.ofList_toList, hn]
      rfl
    rw [patchLine, hnode]
    simp only [hother, id_of_node? hn]
    exact congrArg _ (hpatched other)
  have hplain (h : String) (p : List Char) (ht : h.toList =
      '[' :: (c.id.toList ++ ']' :: ((labelPart c).toList ++ p))) :
      (indent depth ++ h).toList = headLine depth c p false ∧
        s!"{indent depth}{h} \x7b".toList = headLine depth c p true := by
    simp [headLine, ht, toString_self]
  obtain ⟨hline, hopen⟩ := hplain head place htext
  obtain ⟨hline', hopen'⟩ := hplain moved other.toList htext'
  rw [Patches, Patches, hline, hline', hopen, hopen']
  exact ⟨hpatch false, hpatch true⟩

omit [Scalar α] in
private theorem portText_front (owner : String) (p : Port α) :
    ∃ cs, (portText owner p).toList = 'p' :: cs := by
  rw [portText]
  exact ⟨_, by simp [toString_self]; rfl⟩

/-- A port's line stays as it is. -/
theorem patches_port (d : Diagram α) (depth : Nat) (owner : String) (p : Port α) :
    Patches d (indent depth ++ portText owner p) (indent depth ++ portText owner p) := by
  obtain ⟨cs, hcs⟩ := portText_front owner p
  refine patches_of_nodeLine? ?_
  rw [String.toList_append, hcs]
  exact nodeLine?_other depth (by decide) (by decide) cs

/-- A connector's line stays as it is. -/
theorem patches_edge (d : Diagram α) (depth : Nat) {c : Connector} (h : c.IsWellFormed) :
    Patches d (indent depth ++ connectorText c) (indent depth ++ connectorText c) := by
  refine patches_connector d ((isConnectorLine_iff _).mpr ?_)
  rw [cut_indented, cut_connectorText h, connectorTokens]
  exact ⟨token (drawnKind c.kind) c.kind.text, by simp, isConnector_drawnKind c.kind⟩

theorem isLine_of_legible {c : Connector} (h : c.IsLegible) : IsLine (connectorText c) :=
  isLine_connectorText h.toIsWellFormed (isLine_identifier h.source) (isLine_identifier h.target)

theorem patches_closing (d : Diagram α) (depth : Nat) :
    Patches d (indent depth ++ "\x7d") (indent depth ++ "\x7d") := by
  refine patches_of_nodeLine? ?_
  rw [String.toList_append]
  exact nodeLine?_other depth (by decide) (by decide) []

mutual

/-- The lines of a tree are rewritten as those of the tree with its positions changed. -/
theorem patches_tree {d : Diagram α} {limit level : Nat} (depth : Nat) : (t : ComponentTree α) →
    t.AllBelow limit (IsPatchable d) level → ∃ lines lines', treeLines depth t = .ok lines ∧
      treeLines depth (Tree.map (synced d) t) = .ok lines' ∧ List.Forall₂ (Patches d) lines lines'
  | .node c children, h => by
    rw [Tree.AllBelow] at h
    obtain ⟨⟨hc, -⟩, hchildren⟩ := h
    obtain ⟨head, head', hhead, hhead', hpatch⟩ := patches_head hc
    obtain ⟨inside, inside', hinside, hinside', hbelow⟩ :=
      patches_forest (depth + 1) children hchildren
    have hports : (synced d c).ports = c.ports ∧ (synced d c).id = c.id := by
      obtain ⟨n, -, hn, -⟩ := hc.placed
      rw [synced, hn]
      exact ⟨rfl, rfl⟩
    have hnone : (Tree.forestMap (synced d) children).isEmpty = children.isEmpty := by
      cases children <;> rfl
    rw [Tree.map, treeLines, treeLines, hhead, hhead', hnone, hports.1, hports.2]
    cases hempty : children.isEmpty && c.ports.isEmpty with
    | true =>
      exact ⟨_, _, rfl, rfl, .cons (hpatch depth).1 .nil⟩
    | false =>
      rw [show forestLines (depth + 1) children = _ from hinside,
        show forestLines (depth + 1) (Tree.forestMap (synced d) children) = _ from hinside']
      refine ⟨_, _, rfl, rfl, ?_⟩
      have hinner : List.Forall₂ (Patches d) (c.ports.map fun p => indent (depth + 1) ++
          portText c.id p) (c.ports.map fun p => indent (depth + 1) ++ portText c.id p) :=
        List.forall₂_same.mpr fun line hline => by
          obtain ⟨p, -, rfl⟩ := List.mem_map.mp hline
          exact patches_port d (depth + 1) c.id p
      exact List.rel_append (List.rel_append (List.rel_append (.cons (hpatch depth).2 .nil) hinner)
        hbelow) (.cons (patches_closing d depth) .nil)

theorem patches_forest {d : Diagram α} {limit level : Nat} (depth : Nat) :
    (ts : List (ComponentTree α)) → Tree.ForestAllBelow limit (IsPatchable d) level ts →
    ∃ lines lines', forestLines depth ts = .ok lines ∧
      forestLines depth (Tree.forestMap (synced d) ts) = .ok lines' ∧
      List.Forall₂ (Patches d) lines lines'
  | [], _ => ⟨[], [], rfl, rfl, .nil⟩
  | t :: ts, h => by
    rw [Tree.ForestAllBelow] at h
    obtain ⟨first, first', hfirst, hfirst', hpatch⟩ := patches_tree depth t h.1
    obtain ⟨others, others', hothers, hothers', hpatches⟩ := patches_forest depth ts h.2
    refine ⟨first ++ others, first' ++ others', ?_, ?_, List.rel_append hpatch hpatches⟩
    · rw [forestLines, hfirst, hothers]
      rfl
    · rw [Tree.forestMap, forestLines, hfirst', hothers']
      rfl

end

/-! ## Texts -/

/-- A text in which every line has an end. -/
def ofLines (ls : List String) : String := "\n".intercalate ls ++ "\n"

theorem toList_ofLines_cons (l m : String) (ls : List String) :
    (ofLines (l :: m :: ls)).toList = l.toList ++ '\n' :: (ofLines (m :: ls)).toList := by
  have hline : ("\n" : String).toList = ['\n'] := rfl
  rw [ofLines, ofLines, String.intercalate_cons_cons]
  simp only [String.toList_append, hline, List.append_assoc, List.cons_append, List.nil_append]

theorem lines_ofLines {ls : List String} (hne : ls ≠ []) (h : ∀ l ∈ ls, IsLine l) :
    Text.lines (ofLines ls).toList = ls.map String.toList ++ [[]] := by
  induction ls with
  | nil => exact absurd rfl hne
  | cons l ls ih =>
    obtain ⟨hl, hls⟩ := List.forall_mem_cons.mp h
    cases ls with
    | nil =>
      have hsingle : (ofLines [l]).toList = l.toList ++ '\n' :: [] := String.toList_append ..
      rw [hsingle, Text.lines_append_line hl]
      rfl
    | cons m ls =>
      rw [toList_ofLines_cons, Text.lines_append_line hl, ih (by simp) hls]
      rfl

theorem unlines_ofLines {ls : List String} (hne : ls ≠ []) :
    String.ofList (Text.unlines (ls.map String.toList ++ [[]])) = ofLines ls := by
  rw [← String.toList_inj, String.toList_ofList, Text.unlines]
  induction ls with
  | nil => exact absurd rfl hne
  | cons l ls ih =>
    cases ls with
    | nil =>
      have hsingle : (ofLines [l]).toList = l.toList ++ '\n' :: [] := String.toList_append ..
      rw [hsingle]
      simp [List.intercalate]
    | cons m ls =>
      have hcons : ['\n'].intercalate (l.toList :: (m :: ls).map String.toList ++ [[]]) =
          l.toList ++ '\n' :: ['\n'].intercalate ((m :: ls).map String.toList ++ [[]]) := by
        simp [List.intercalate]
      rw [toList_ofLines_cons, ← ih (by simp)]
      exact hcons

theorem mapM_ok {ε β γ : Type} {f : β → Except ε γ} {l : List β} {m : List γ}
    (h : List.Forall₂ (fun b c => f b = .ok c) l m) : l.mapM f = .ok m := by
  induction h with
  | nil => rfl
  | cons hb _ ih =>
    rw [List.mapM_cons, hb, ih]
    rfl

/-- Text is rewritten line by line. -/
theorem updatePositions_ofLines {d : Diagram α} {ls ls' : List String} (hne : ls ≠ [])
    (hl : ∀ l ∈ ls, IsLine l) (h : List.Forall₂ (Patches d) ls ls') :
    updatePositions (ofLines ls) d = .ok (ofLines ls') := by
  have hne' : ls' ≠ [] := by
    rintro rfl
    exact hne (List.forall₂_nil_right_iff.mp h)
  have hlast : patchLine d [] = .ok [] := rfl
  have hlines : (ls.map String.toList ++ [[]]).mapM (patchLine d) =
      .ok (ls'.map String.toList ++ [[]]) := by
    refine mapM_ok (List.rel_append ?_ (.cons hlast .nil))
    rwa [List.forall₂_map_left_iff, List.forall₂_map_right_iff]
  rw [updatePositions, lines_ofLines hne hl, hlines, ← unlines_ofLines hne']
  rfl

/-- The line that opens a diagram stays as it is, unless it names a component. -/
theorem patches_opening {d : Diagram α} {type : DiagramType} (h : d.node? type.name = none) :
    Patches d s!"[{type.name}] \x7b" s!"[{type.name}] \x7b" := by
  have htext : s!"[{type.name}] \x7b".toList =
      (indent 0).toList ++ '[' :: (type.name.toList ++ ']' :: [' ', '\x7b']) := by
    rw [indent, String.toList_ofList]
    simp [toString_self]
  refine patches_self ?_
  rw [htext, nodeOnLine?, nodeLine?_head 0 (isIdentifier_type type)]
  simp only [Option.bind_eq_bind, Option.bind_some, String.ofList_toList, h, Option.bind_none]

theorem isLine_opening (type : DiagramType) : IsLine s!"[{type.name}] \x7b" := by
  cases type <;> decide

/-- The positions of a diagram are written into the source of a document as they are written with
the document. -/
theorem updatePositions_document {doc : Document α} {d : Diagram α} {limit : Nat}
    (hroots : Tree.ForestAllBelow limit (IsPatchable d) 0 doc.roots)
    (hconnectors : ∀ c ∈ doc.connectors, c.IsLegible) (htype : d.node? doc.type.name = none) :
    ∃ text text', Print.document doc = .ok text ∧ updatePositions text d = .ok text' ∧
      Print.document (syncPositions doc d) = .ok text' := by
  obtain ⟨inside, inside', hinside, hinside', hpatches⟩ := patches_forest 1 doc.roots hroots
  have hinner := inner_forest (by decide) (hroots.mono fun c hc => hc.toIsWellFormed) hinside
  let gap := if doc.roots.isEmpty || doc.connectors.isEmpty then [] else [""]
  let edges := doc.connectors.map fun c => indent 1 ++ connectorText c
  let lines (inside : List String) : List String :=
    [s!"[{doc.type.name}] \x7b"] ++ inside ++ gap ++ edges ++ ["\x7d"]
  have hgap : List.Forall₂ (Patches d) gap gap := by
    simp only [gap]
    split
    · exact .nil
    · exact .cons (patches_of_nodeLine? rfl) .nil
  have hedges : List.Forall₂ (Patches d) edges edges := by
    refine List.forall₂_same.mpr fun line hline => ?_
    obtain ⟨c, hc, rfl⟩ := List.mem_map.mp hline
    exact patches_edge d 1 (hconnectors c hc).toIsWellFormed
  have hpatch : List.Forall₂ (Patches d) (lines inside) (lines inside') :=
    List.rel_append (List.rel_append (List.rel_append (List.rel_append
      (.cons (patches_opening htype) .nil) hpatches) hgap) hedges)
      (.cons (patches_closing d 0) .nil)
  have hlines : ∀ l ∈ lines inside, IsLine l := by
    simp only [lines, edges, List.mem_append, List.mem_singleton, List.mem_map]
    rintro l ((((rfl | hl) | hl) | ⟨c, hc, rfl⟩) | rfl)
    · exact isLine_opening doc.type
    · exact (hinner l hl).line
    · have hempty : l = "" := by
        simp only [gap] at hl
        split at hl
        · cases hl
        · exact List.mem_singleton.mp hl
      rw [hempty]
      decide
    · exact (isInner_indent (by decide) (isLine_of_legible (hconnectors c hc))).line
    · decide
  have hnone : (Tree.forestMap (synced d) doc.roots).isEmpty = doc.roots.isEmpty := by
    cases doc.roots <;> rfl
  refine ⟨ofLines (lines inside), ofLines (lines inside'), ?_,
    updatePositions_ofLines (by simp [lines]) hlines hpatch, ?_⟩
  · rw [Print.document, documentLines, hinside]
    rfl
  · rw [show syncPositions doc d =
      { doc with roots := Tree.forestMap (synced d) doc.roots } from rfl]
    rw [Print.document, documentLines]
    simp only [hinside', hnone]
    rfl

end ComponentDiagram.Print
