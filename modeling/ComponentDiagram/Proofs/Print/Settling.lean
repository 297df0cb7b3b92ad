import ComponentDiagram.Proofs.Layout.Pinning
import ComponentDiagram.Proofs.Layout.Separation
import ComponentDiagram.Proofs.Print.Repositioning

/-! Layouts that are written into the source they were made from: the second source is laid out as
the first, but for rounding, and the third is laid out and written as itself. -/
namespace ComponentDiagram
open Source Grammar Print

namespace Print

variable {α : Type} [Scalar α]

/-- Components that are written in the same way. -/
structure IsWrittenAs (a b : Component α) : Prop where
  id : a.id = b.id
  head : headText a = headText b
  ports : a.ports = b.ports

section

variable {f g : Component α → Component α} {limit : Nat}

mutual

theorem treeLines_congr {level : Nat} (depth : Nat) : (t : ComponentTree α) →
    t.AllBelow limit (fun c => IsWrittenAs (f c) (g c)) level →
    treeLines depth (Tree.map f t) = treeLines depth (Tree.map g t)
  | .node c children, h => by
    rw [Tree.AllBelow] at h
    obtain ⟨⟨hc, -⟩, hchildren⟩ := h
    have hnone : (Tree.forestMap f children).isEmpty = (Tree.forestMap g children).isEmpty := by
      cases children <;> rfl
    rw [Tree.map, Tree.map, treeLines, treeLines, hc.head, hc.ports, hc.id, hnone,
      forestLines_congr (depth + 1) children hchildren]

theorem forestLines_congr {level : Nat} (depth : Nat) : (ts : List (ComponentTree α)) →
    Tree.ForestAllBelow limit (fun c => IsWrittenAs (f c) (g c)) level ts →
    forestLines depth (Tree.forestMap f ts) = forestLines depth (Tree.forestMap g ts)
  | [], _ => rfl
  | t :: ts, h => by
    rw [Tree.ForestAllBelow] at h
    rw [Tree.forestMap, Tree.forestMap, forestLines, forestLines, treeLines_congr depth t h.1,
      forestLines_congr depth ts h.2]

end

theorem document_congr {doc : Document α}
    (h : Tree.ForestAllBelow limit (fun c => IsWrittenAs (f c) (g c)) 0 doc.roots) :
    Print.document { doc with roots := Tree.forestMap f doc.roots } =
      Print.document { doc with roots := Tree.forestMap g doc.roots } := by
  have hnone : (Tree.forestMap f doc.roots).isEmpty = (Tree.forestMap g doc.roots).isEmpty := by
    cases doc.roots <;> rfl
  simp only [Print.document, documentLines, forestLines_congr 1 doc.roots h, hnone]

end

end Print

/-! ## Exact documents -/

theorem isWritable_rat (x : Rat) : IsWritable x :=
  ⟨nearest x, nearest x, rfl, coordinateOf_integer _⟩

theorem IsInteger.reread_eq {x : Rat} (h : IsInteger x) : reread x = x := by
  have hread : Reader.coordinateOf (toString (integerOf x)) = .ok (nearest x : Rat) :=
    coordinateOf_integer (nearest x)
  rw [reread, hread]
  exact h.nearest_eq

theorem Component.IsWellFormed.reread_exact {c : Component Rat} (h : c.IsWellFormed IsInteger) :
    c.reread = c := by
  rw [Component.reread]
  rcases h.place with ⟨hx, hy⟩ | ⟨x, y, hx, hy, hwx, hwy⟩
  · rw [hx, hy, Option.map_none, ← hx]
    exact congrArg (fun y => { c with y }) (hx.trans hy.symm)
  · rw [hx, hy, Option.map_some, Option.map_some, hwx.reread_eq, hwy.reread_eq, ← hx, ← hy]

/-- The source of an exact document is read as the document. -/
theorem parse_exact {doc : Document Rat} (h : doc.IsCanonical IsInteger) :
    ∃ text, Print.document doc = .ok text ∧ ∀ file, parse text file = .ok doc := by
  have hroots : Tree.forestMap Component.reread doc.roots = doc.roots := by
    rw [Tree.forestMap_congr h.roots fun c hc => hc.toIsWellFormed.reread_exact]
    exact Tree.forestMap_id doc.roots
  have hconnectors : doc.connectors.zipIdx.map (fun p => p.1.reread p.2) = doc.connectors := by
    refine (List.map_congr_left fun p hp => (h.connectors p hp).reread).trans ?_
    exact List.zipIdx_map_fst 0 doc.connectors
  have hreread : doc.reread = doc := by
    rw [Document.reread, hroots, hconnectors, ← h.diagnostics]
  have hread := parse_legible (h.isLegible fun x _ => isWritable_rat x)
  rwa [hreread] at hread

/-! ## Writing back -/

namespace Layout

/-- The layout of the diagram in a text, if it ends. -/
def layoutOf (config : Config Rat) (text : String) : Option (Boxes Rat) := do
  let doc ← (parse text none).toOption
  compute (Build.diagram doc) config

/-- A text into which the layout of its diagram is written. -/
def writeBack (config : Config Rat) (text : String) : Option String := do
  let doc ← (parse text none).toOption
  let d ← layout (Build.diagram doc) config
  (updatePositions text d).toOption

end Layout

/-- An exact document with different components, whose lines are told apart. -/
structure Document.IsRewritable (doc : Document Rat) : Prop where
  canonical : doc.IsCanonical IsInteger
  distinct : (doc.components.map (·.id)).Nodup
  type : ∀ c ∈ doc.components, DiagramType.ofName? c.id = none
  label : ∀ c ∈ doc.components, ∀ t ∈ cut c.label.toList, t.kind.isConnector = false

theorem Component.pinnedAt_label (boxes : Layout.Boxes Rat) (c : Component Rat) :
    (c.pinnedAt boxes).label = c.label := by
  rw [pinnedAt]
  split <;> rfl

theorem Component.IsCanonical.pinnedAt {c : Component Rat} (h : c.IsCanonical IsInteger)
    (boxes : Layout.Boxes Rat) : (c.pinnedAt boxes).IsCanonical IsInteger := by
  rw [Component.pinnedAt]
  split
  · exact ⟨⟨h.id, h.label, .inr ⟨_, _, rfl, rfl, isInteger_intCast _, isInteger_intCast _⟩, h.width,
      h.height, h.ports⟩, h.edge⟩
  · exact h

theorem Document.IsRewritable.pinnedAt {doc : Document Rat} (h : doc.IsRewritable)
    (boxes : Layout.Boxes Rat) : (doc.pinnedAt boxes).IsRewritable := by
  have hmem : ∀ c ∈ (doc.pinnedAt boxes).components, ∃ b ∈ doc.components, c.id = b.id ∧
      c.label = b.label := by
    intro c hc
    rw [Document.components, Document.pinnedAt, Tree.values_forestMap] at hc
    obtain ⟨b, hb, rfl⟩ := List.mem_map.mp hc
    exact ⟨b, hb, b.pinnedAt_id boxes, b.pinnedAt_label boxes⟩
  refine ⟨⟨h.canonical.roots.map fun c hc => hc.pinnedAt boxes, h.canonical.connectors,
    h.canonical.diagnostics⟩, doc.pinnedAt_ids boxes ▸ h.distinct, fun c hc => ?_, fun c hc => ?_⟩
  · obtain ⟨b, hb, hid, -⟩ := hmem c hc
    rw [hid]
    exact h.type b hb
  · obtain ⟨b, hb, -, hlabel⟩ := hmem c hc
    rw [hlabel]
    exact h.label b hb

theorem Document.pinnedAt_congr {doc : Document Rat} {boxes other : Layout.Boxes Rat}
    (hboxes : ∀ id ∈ forestIds doc.roots, boxes.get? id = other.get? id) :
    doc.pinnedAt boxes = doc.pinnedAt other := by
  have hroots : Tree.forestMap (Component.pinnedAt boxes) doc.roots =
      Tree.forestMap (Component.pinnedAt other) doc.roots := by
    refine Tree.forestMap_congr_left fun c hc => ?_
    rw [Component.pinnedAt, Component.pinnedAt, hboxes c.id (List.mem_map_of_mem hc)]
  rw [Document.pinnedAt, Document.pinnedAt, hroots]

namespace Layout

section

variable {doc : Document Rat} (h : doc.IsRewritable) {config : Config Rat}

include h

/-- The layout of a document is that of its source. -/
theorem layoutOf_document (config : Config Rat) : ∃ text, Print.document doc = .ok text ∧
    parse text none = .ok doc ∧ layoutOf config text = compute (Build.diagram doc) config := by
  obtain ⟨text, htext, hparse⟩ := parse_exact h.canonical
  refine ⟨text, htext, hparse none, ?_⟩
  rw [layoutOf, hparse none]
  rfl

variable {boxes : Boxes Rat} (hboxes : compute (Build.diagram doc) config = some boxes)

include hboxes

/-- A document that takes over its layout is written like one that is pinned at it. -/
theorem document_pinnedAt :
    Print.document (syncPositions doc (apply (Build.diagram doc) boxes)) =
      Print.document (doc.pinnedAt boxes) := by
  have hview := flatView_diagram h.distinct
  refine document_congr (f := synced _) (h.canonical.roots.and_values (fun c hc => ?_)
    fun c _ hc => hc)
  have hid : c.id ∈ forestIds doc.roots := List.mem_map_of_mem hc
  obtain ⟨n, -, hn⟩ := exists_node (hview.ids ▸ hid)
  obtain ⟨box, hbox⟩ := exists_box hview hboxes hid
  have hplace : placeText box.x box.y = placeText (nearest box.x : Rat) (nearest box.y : Rat) := by
    simp only [placeText, coordinate, nearestInt_rat, nearest_intCast]
  rw [synced, node?_apply, hn, Option.map_some, boxed, id_of_node? hn, Component.pinnedAt, hbox]
  refine ⟨rfl, ?_, rfl⟩
  simp only [headText, hplace]

/-- The layout of a document is written into its source. -/
theorem writeBack_document : ∃ text text', Print.document doc = .ok text ∧
    Print.document (doc.pinnedAt boxes) = .ok text' ∧ writeBack config text = some text' := by
  have hdistinct : Distinguishable doc := by
    refine ⟨fun c hc he => ?_, h.label⟩
    have hnone := h.type c hc
    rw [he, ofName?_type] at hnone
    cases hnone
  have hids : (apply (Build.diagram doc) boxes).nodes.map (·.id) =
      doc.components.map (·.id) := by
    rw [apply_eq, List.map_map]
    refine (List.map_congr_left fun n _ => boxed_id _ n).trans ?_
    exact (flatView_diagram h.distinct).ids
  obtain ⟨text, text', htext, hupdate, hsync⟩ := updatePositions_legible
    (h.canonical.isLegible fun x _ => isWritable_rat x) hdistinct hids
    fun n _ => ⟨_, rfl⟩
  obtain ⟨source, hsource, hparse, -⟩ := layoutOf_document h config
  cases htext.symm.trans hsource
  refine ⟨text, text', htext, ?_, ?_⟩
  · rw [← document_pinnedAt h hboxes, hsync]
  · have hlaid : layout (Build.diagram doc) config = some (apply (Build.diagram doc) boxes) := by
      rw [layout, hboxes, Option.map_some]
    rw [writeBack, hparse, Except.toOption, Option.bind_eq_bind, Option.bind_some, hlaid]
    exact congrArg Except.toOption hupdate

end

/-- The layout of an exact document ends if the spacing is not negative. When it is written into the
document's source, the layout of that source is the same, but for each root with all that it holds,
which is moved by at most a half on each axis. Written once more, the source stays as it is from
then on. -/
theorem writeBack_settles {doc : Document Rat} (h : doc.IsRewritable) (config : Config Rat) :
    ∃ first, Print.document doc = .ok first ∧
      (0 ≤ config.childSpacing → ∃ before, layoutOf config first = some before) ∧
      ∀ before, layoutOf config first = some before → ∃ second third after,
        writeBack config first = some second ∧ writeBack config second = some third ∧
        writeBack config third = some third ∧ layoutOf config second = some after ∧
        ∀ t ∈ doc.roots, ∃ dx dy, |dx| ≤ 1 / 2 ∧ |dy| ≤ 1 / 2 ∧ ∀ id ∈ treeIds t, ∃ box,
          before.get? id = some box ∧ after.get? id = some (box.translate dx dy) := by
  obtain ⟨first, hfirst, -, hlayout⟩ := layoutOf_document h config
  refine ⟨first, hfirst, fun hspacing => hlayout ▸ exists_compute hspacing _,
    fun before hbefore => ?_⟩
  rw [hlayout] at hbefore
  have h₁ : (doc.pinnedAt before).IsRewritable := h.pinnedAt _
  obtain ⟨after, hafter⟩ := exists_compute_pinnedAt h.distinct hbefore
  have h₂ : ((doc.pinnedAt before).pinnedAt after).IsRewritable := h₁.pinnedAt _
  obtain ⟨again, hagain⟩ := exists_compute_pinnedAt h₁.distinct hafter
  obtain ⟨_, second, hfirst', hsecond, hwrite⟩ := writeBack_document h hbefore
  obtain ⟨_, third, hsecond', hthird, hwrite₁⟩ := writeBack_document h₁ hafter
  obtain ⟨_, fourth, hthird', hfourth, hwrite₂⟩ := writeBack_document h₂ hagain
  obtain ⟨_, hsecond'', -, hlayout₁⟩ := layoutOf_document h₁ config
  cases hfirst.symm.trans hfirst'
  cases hsecond.symm.trans hsecond'
  cases hsecond.symm.trans hsecond''
  cases hthird.symm.trans hthird'
  -- The second layout that is pinned is the first one again.
  have hsame : ((doc.pinnedAt before).pinnedAt after).pinnedAt again =
      (doc.pinnedAt before).pinnedAt after := by
    have hids : forestIds ((doc.pinnedAt before).pinnedAt after).roots = forestIds doc.roots :=
      ((doc.pinnedAt before).pinnedAt_ids after).trans (doc.pinnedAt_ids before)
    rw [Document.pinnedAt_congr fun id hid =>
      get?_pinnedAt_again h.distinct hbefore hafter hagain (hids ▸ hid)]
    exact (doc.pinnedAt before).pinnedAt_again after
  rw [hsame, hthird] at hfourth
  cases hfourth
  refine ⟨second, third, after, hwrite, hwrite₁, hwrite₂, hlayout₁.trans hafter, fun t ht => ?_⟩
  obtain ⟨box, -, hmoved⟩ := movedBy_pinnedAt h.distinct hbefore hafter ht
  refine ⟨_, _, nearest_error box.x, nearest_error box.y, fun id hid => ?_⟩
  obtain ⟨own, hown⟩ := exists_box (flatView_diagram h.distinct) hbefore
    (mem_forestIds.mpr ⟨t, ht, hid⟩)
  refine ⟨own, hown, ?_⟩
  rw [hmoved id hid, hown]
  rfl

theorem writeBack_settles_anchoredPair : anchoredPair.IsRewritable ∧
    ∃ first second third, Print.document anchoredPair = .ok first ∧
      writeBack .standard first = some second ∧ writeBack .standard second = some third ∧
      writeBack .standard third = some third := by
  have hrewritable : anchoredPair.IsRewritable :=
    ⟨by decide +kernel, by decide +kernel, by decide +kernel, by decide +kernel⟩
  obtain ⟨first, hfirst, hends, hsettles⟩ := writeBack_settles hrewritable .standard
  obtain ⟨before, hbefore⟩ := hends standard_spacing
  obtain ⟨second, third, _, hsecond, hthird, hlast, -⟩ := hsettles before hbefore
  exact ⟨hrewritable, first, second, third, hfirst, hsecond, hthird, hlast⟩

end Layout

end ComponentDiagram
