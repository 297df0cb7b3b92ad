import ComponentDiagram.Proofs.Build.FlatView
import ComponentDiagram.Proofs.Numeric.Finite
import ComponentDiagram.Proofs.Print.Patching

/-! The two ways back to text agree: the source of a document whose lines are rewritten is the
source of the document whose positions are changed. -/
namespace ComponentDiagram

section

variable {α : Type}

/-- The same diagram with other positions, whose coordinates pass. -/
structure Diagram.IsMoved (finite : α → Prop) (d e : Diagram α) : Prop where
  type : e.type = d.type
  ports : e.ports = d.ports
  connectors : e.connectors = d.connectors
  nodes : List.Forall₂ (fun n m => { n with x := m.x, y := m.y } = m ∧ finite m.x ∧ finite m.y)
    d.nodes e.nodes

theorem Diagram.IsMoved.ids {finite : α → Prop} {d e : Diagram α} (h : d.IsMoved finite e) :
    e.nodes.map (·.id) = d.nodes.map (·.id) := by
  symm
  rw [← List.forall₂_eq_eq_eq, List.forall₂_map_left_iff, List.forall₂_map_right_iff]
  refine h.nodes.imp fun n m hm => ?_
  rw [← hm.1]

theorem Diagram.IsMoved.finite {finite : α → Prop} {d e : Diagram α} (h : d.IsMoved finite e) :
    ∀ m ∈ e.nodes, finite m.x ∧ finite m.y :=
  ((List.forall₂_and_left e.nodes d.nodes).mp
    (List.Forall₂.flip (h.nodes.imp fun _ _ hm => ⟨hm.2, trivial⟩))).1

end

namespace Print
open Source

/-- A document whose lines are told apart: no component is named like the diagram, and no label
draws a connector. -/
structure Distinguishable {α : Type} (doc : Document α) : Prop where
  type : ∀ c ∈ doc.components, c.id ≠ doc.type.name
  label : ∀ c ∈ doc.components, ∀ t ∈ cut c.label.toList, t.kind.isConnector = false

/-- The positions of the nodes of a diagram can be written. -/
def HasPlaces {α : Type} [Scalar α] (d : Diagram α) : Prop :=
  ∀ n ∈ d.nodes, ∃ place, placeText n.x n.y = .ok place

theorem updatePositions_legible {α : Type} [Scalar α] {doc : Document α} (h : doc.IsLegible)
    (hd : Distinguishable doc) {d : Diagram α}
    (hids : d.nodes.map (·.id) = doc.components.map (·.id)) (hp : HasPlaces d) :
    ∃ text text', Print.document doc = .ok text ∧ updatePositions text d = .ok text' ∧
      Print.document (syncPositions doc d) = .ok text' := by
  have hplaced : ∀ c ∈ doc.components, (∀ t ∈ cut c.label.toList, t.kind.isConnector = false) ∧
      ∃ n place, d.node? c.id = some n ∧ placeText n.x n.y = .ok place := by
    intro c hc
    obtain ⟨n, hn, hnode⟩ := exists_node (hids ▸ List.mem_map_of_mem hc)
    obtain ⟨place, hplace⟩ := hp n hn
    exact ⟨hd.label c hc, n, place, hnode, hplace⟩
  have hroots : Tree.ForestAllBelow 50 (IsPatchable d) 0 doc.roots :=
    h.roots.and_values hplaced fun c hc hc' => ⟨hc.toIsWellFormed, hc'.1, hc'.2⟩
  refine updatePositions_document hroots h.connectors (node?_none ?_)
  rw [hids]
  intro hmem
  obtain ⟨c, hc, hid⟩ := List.mem_map.mp hmem
  exact hd.type c hc hid

end Print

/-! ## Documents of doubles -/

theorem IsFinite.placeText {x y : Float} (hx : IsFinite x) (hy : IsFinite y) :
    ∃ place, Print.placeText x y = .ok place := by
  obtain ⟨n, hn⟩ := hx.nearestInt
  obtain ⟨m, hm⟩ := hy.nearestInt
  refine ⟨s!" @ {n},{m}", ?_⟩
  rw [Print.placeText, Print.coordinate, Print.coordinate, hn, hm]
  rfl

open Print Source

/-- Positions that are written into the source of a canonical document give the source of the
document that takes them over. -/
theorem updatePositions_canonical {doc : Document Float} (h : doc.IsCanonical IsWhole)
    (htype : ∀ c ∈ doc.components, DiagramType.ofName? c.id = none)
    (hlabel : ∀ c ∈ doc.components, ∀ t ∈ cut c.label.toList, t.kind.isConnector = false)
    {d : Diagram Float} (hd : (Build.diagram doc).IsMoved IsFinite d) :
    ∃ text text', Print.document doc = .ok text ∧ updatePositions text d = .ok text' ∧
      Print.document (syncPositions doc d) = .ok text' := by
  have hids : d.nodes.map (·.id) = doc.components.map (·.id) :=
    hd.ids.trans (Build.flattenForest_ids none 0 doc.roots)
  have hdistinct : Distinguishable doc := by
    refine ⟨fun c hc he => ?_, hlabel⟩
    have hnone := htype c hc
    rw [he, ofName?_type] at hnone
    cases hnone
  refine updatePositions_legible (h.isLegible fun _ => IsWhole.isWritable) hdistinct hids
    fun n hn => ?_
  obtain ⟨hx, hy⟩ := hd.finite n hn
  exact hx.placeText hy

/-- The diagram of a component with another one inside it, both at one place. -/
def movedPair : Diagram Float :=
  { Build.diagram nestedPair with
    nodes := (Build.diagram nestedPair).nodes.map fun n =>
      { n with x := Float.ofBits 0x4014000000000000, y := Float.ofBits 0xBFF8000000000000 } }

theorem updatePositions_canonical_movedPair : nestedPair.IsCanonical IsWhole ∧
    (Build.diagram nestedPair).IsMoved IsFinite movedPair ∧
    ∃ text text', Print.document nestedPair = .ok text ∧
      updatePositions text movedPair = .ok text' ∧
      Print.document (syncPositions nestedPair movedPair) = .ok text' := by
  have hcanonical : nestedPair.IsCanonical IsWhole := by decide +kernel
  have hmoved : (Build.diagram nestedPair).IsMoved IsFinite movedPair := by
    refine ⟨rfl, rfl, rfl, ?_⟩
    have hx : IsFinite (Float.ofBits 0x4014000000000000) := by decide +kernel
    have hy : IsFinite (Float.ofBits 0xBFF8000000000000) := by decide +kernel
    rw [movedPair, List.forall₂_map_right_iff, List.forall₂_same]
    exact fun n _ => ⟨rfl, hx, hy⟩
  exact ⟨hcanonical, hmoved, updatePositions_canonical hcanonical (by decide +kernel)
    (by decide +kernel) hmoved⟩

end ComponentDiagram
