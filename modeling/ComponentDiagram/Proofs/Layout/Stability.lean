import ComponentDiagram.Proofs.Layout.Placing
import ComponentDiagram.Proofs.Layout.Skeleton

/-! A layout puts pinned roots where they are pinned, and reads no other position. So a diagram that
is laid out again stays as it is. -/
namespace ComponentDiagram

variable {α : Type} [Scalar α]

/-- The same entry, but perhaps for its size, and for its position unless it is a pinned root. -/
structure FlatNode.Resembles (n m : FlatNode α) : Prop where
  same : { n with x := m.x, y := m.y, width := m.width, height := m.height } = m
  fixed : n.isPinnedRoot = true → n.x = m.x ∧ n.y = m.y

/-- Diagrams that differ only in sizes, and in positions of nodes that are no pinned roots. -/
structure Diagram.Resembles (d e : Diagram α) : Prop where
  ports : d.ports = e.ports
  connectors : d.connectors = e.connectors
  nodes : List.Forall₂ FlatNode.Resembles d.nodes e.nodes

theorem FlatNode.Resembles.skeleton {n m : FlatNode α} (h : n.Resembles m) :
    n.skeleton = m.skeleton := by
  obtain ⟨hsame, hfixed⟩ := h
  obtain ⟨id, label, x, y, width, height, parent, depth, childIds, pinned⟩ := n
  obtain ⟨id', label', x', y', width', height', parent', depth', childIds', pinned'⟩ := m
  simp only [FlatNode.mk.injEq, true_and] at hsame
  obtain ⟨rfl, rfl, rfl, rfl, rfl, rfl⟩ := hsame
  cases hroot : FlatNode.isPinnedRoot
    ⟨id, label, x, y, width, height, parent, depth, childIds, pinned⟩
  · have hroot' : FlatNode.isPinnedRoot
      ⟨id, label, x', y', width', height', parent, depth, childIds, pinned⟩ = false := hroot
    rw [FlatNode.skeleton, FlatNode.skeleton, hroot, hroot']
    rfl
  · obtain ⟨rfl, rfl⟩ := hfixed hroot
    rfl

theorem Diagram.Resembles.skeleton {d e : Diagram α} (h : d.Resembles e) :
    d.skeleton = e.skeleton := by
  have hnodes : d.nodes.map FlatNode.skeleton = e.nodes.map FlatNode.skeleton := by
    rw [← List.forall₂_eq_eq_eq, List.forall₂_map_left_iff, List.forall₂_map_right_iff]
    exact h.nodes.imp fun _ _ hnm => hnm.skeleton
  rw [Diagram.skeleton, Diagram.skeleton, hnodes, h.ports, h.connectors]

namespace Layout

/-- A node with the box that is written into it. -/
def boxed (boxes : Boxes Rat) (n : FlatNode Rat) : FlatNode Rat :=
  match boxes.get? n.id with
  | some b => { n with x := b.x, y := b.y, width := some b.width, height := some b.height }
  | none => n

theorem boxed_id (boxes : Boxes Rat) (n : FlatNode Rat) : (boxed boxes n).id = n.id := by
  rw [boxed]
  split <;> rfl

theorem apply_eq (d : Diagram Rat) (boxes : Boxes Rat) :
    apply d boxes = { d with nodes := d.nodes.map (boxed boxes) } := by
  rw [apply]
  refine congrArg (fun nodes => { d with nodes }) (List.map_congr_left fun n _ => ?_)
  rw [boxed]
  cases boxes.get? n.id <;> rfl

theorem node?_apply (d : Diagram Rat) (boxes : Boxes Rat) (id : String) :
    (apply d boxes).node? id = (d.node? id).map (boxed boxes) := by
  rw [apply_eq, Diagram.node?, ← List.map_reverse, List.find?_map]
  simp only [Function.comp_def, boxed_id]
  rfl

section

variable {d : Diagram Rat} {forest : List (ComponentTree Rat)} (h : FlatView d forest)
  {config : Config Rat} {boxes : Boxes Rat} (hboxes : compute d config = some boxes)

include h hboxes

/-- A pinned root is laid out where it is pinned. -/
theorem pinned_compute {r : FlatNode Rat} (hr : r ∈ d.roots) (hp : r.pinned = true) :
    ∃ box, boxes.get? r.id = some box ∧ box.x = r.x ∧ box.y = r.y := by
  obtain ⟨pinned, grid, anchored, p, hplan, hf, rfl⟩ := exists_plan h hboxes
  have hmem : r ∈ d.roots.filter (·.pinned) := List.mem_filter.mpr ⟨hr, hp⟩
  obtain ⟨e, he, hid, hx, hy⟩ := exists_mem_of_forall₂ hplan.pinnedAt hmem
  refine ⟨e.2, ?_, hx, hy⟩
  rw [← hid]
  exact hf.done e (by simp [he])

/-- Writing a layout into its diagram changes nothing that a layout reads. -/
theorem resembles_apply : d.Resembles (apply d boxes) := by
  refine ⟨rfl, rfl, ?_⟩
  rw [apply, List.forall₂_map_right_iff, List.forall₂_same]
  intro n hn
  constructor
  · split <;> rfl
  · intro hroot
    obtain ⟨hpinned, hparent⟩ := Bool.and_eq_true_iff.mp hroot
    have hr : n ∈ d.roots := List.mem_filter.mpr ⟨hn, hparent⟩
    obtain ⟨box, hbox, hx, hy⟩ := pinned_compute h hboxes hr hpinned
    rw [hbox]
    exact ⟨hx.symm, hy.symm⟩

theorem compute_apply : compute (apply d boxes) config = some boxes :=
  (compute_congr config (resembles_apply h hboxes).skeleton).symm.trans hboxes

end

/-- The layout of a document, which ends if the spacing is not negative, depends on no position but
those of pinned roots, and puts these exactly there. So writing it into the diagram and laying that
out again gives the same boxes. -/
theorem compute_stable (doc : Document Rat) (h : (doc.components.map (·.id)).Nodup)
    (config : Config Rat) :
    let d := Build.diagram doc
    (0 ≤ config.childSpacing → ∃ boxes, compute d config = some boxes) ∧
    (∀ e : Diagram Rat, d.Resembles e → compute e config = compute d config) ∧
    ∀ boxes, compute d config = some boxes →
      (∀ t ∈ doc.roots, ∀ x y, t.value.x = some x → t.value.y = some y →
        ∃ box, boxes.get? t.value.id = some box ∧ box.x = x ∧ box.y = y) ∧
      compute (apply d boxes) config = some boxes := by
  intro d
  have hview := flatView_diagram h
  refine ⟨fun hspacing => exists_compute hspacing d,
    fun e he => (compute_congr config he.skeleton).symm,
    fun boxes hboxes => ⟨?_, compute_apply hview hboxes⟩⟩
  intro t ht x y hx hy
  have hr : Build.flatNode none 0 t.value t.children ∈ (Build.diagram doc).roots := by
    rw [Build.roots_diagram]
    exact List.mem_map_of_mem (f := fun t => Build.flatNode none 0 t.value t.children) ht
  obtain ⟨box, hbox, hbx, hby⟩ := pinned_compute hview hboxes hr (by simp [Build.flatNode, hx, hy])
  refine ⟨box, hbox, ?_, ?_⟩
  · rw [hbx, Build.flatNode, hx]
    rfl
  · rw [hby, Build.flatNode, hy]
    rfl

/-- A pinned component around another one, beside a free one. -/
def pinnedPair : Document Rat :=
  { roots := [.node { id := "a", x := some (5 / 2), y := some (-3) } [.node { id := "b" } []],
      .node { id := "c" } []] }

theorem compute_stable_pinnedPair : (pinnedPair.components.map (·.id)).Nodup ∧
    ∃ boxes, compute (Build.diagram pinnedPair) .standard = some boxes ∧
      (∃ box, boxes.get? "a" = some box ∧ box.x = 5 / 2 ∧ box.y = -3) ∧
      compute (apply (Build.diagram pinnedPair) boxes) .standard = some boxes := by
  have hdistinct : (pinnedPair.components.map (·.id)).Nodup := by decide
  obtain ⟨hends, -, hstable⟩ := compute_stable pinnedPair hdistinct .standard
  obtain ⟨boxes, hboxes⟩ := hends standard_spacing
  obtain ⟨hpinned, hagain⟩ := hstable boxes hboxes
  exact ⟨hdistinct, boxes, hboxes, hpinned _ (List.mem_cons_self ..) _ _ rfl rfl, hagain⟩

end Layout

end ComponentDiagram
