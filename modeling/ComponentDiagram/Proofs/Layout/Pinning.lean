import ComponentDiagram.Proofs.Layout.Containment
import ComponentDiagram.Proofs.Layout.Stability
import ComponentDiagram.Proofs.Numeric.Nearest

/-! A document that is given the positions of its layout, rounded to integers: its own layout is the
same, but for each root with all that lies below it, which is moved to the rounded place. -/
namespace ComponentDiagram

theorem FlatView.sameTree {α : Type} {d e : Diagram α} {forest : List (ComponentTree α)}
    (h : FlatView d forest) (k : FlatView e forest) : d.SameTree e := by
  refine ⟨?_, h.roots.trans k.roots.symm, fun id => ?_⟩
  · have hids := congrArg List.length (h.ids.trans k.ids.symm)
    rwa [List.length_map, List.length_map] at hids
  · by_cases hid : id ∈ forestIds forest
    · obtain ⟨t, ht, hid⟩ := mem_forestIds.mp hid
      obtain ⟨s, hs, rfl⟩ := mem_treeIds.mp hid
      have hmem := Tree.mem_forestSubtrees.mpr ⟨t, ht, hs⟩
      rw [h.children s hmem, k.children s hmem]
    · rw [Diagram.childrenOf, Diagram.childrenOf, node?_none (h.ids ▸ hid),
        node?_none (k.ids ▸ hid)]

/-- A component at the centre of its box, rounded to integers. -/
def Component.pinnedAt (boxes : Layout.Boxes Rat) (c : Component Rat) : Component Rat :=
  match boxes.get? c.id with
  | some box => { c with x := some (nearest box.x : Rat), y := some (nearest box.y : Rat) }
  | none => c

/-- A document in which every component is at the centre of its box, rounded to integers. -/
def Document.pinnedAt (boxes : Layout.Boxes Rat) (doc : Document Rat) : Document Rat :=
  { doc with roots := Tree.forestMap (Component.pinnedAt boxes) doc.roots }

namespace Component

variable (boxes : Layout.Boxes Rat) (c : Component Rat)

theorem pinnedAt_id : (c.pinnedAt boxes).id = c.id := by
  rw [pinnedAt]
  split <;> rfl

theorem pinnedAt_again : (c.pinnedAt boxes).pinnedAt boxes = c.pinnedAt boxes := by
  cases h : boxes.get? c.id with
  | none => simp only [pinnedAt, h]
  | some box => simp only [pinnedAt, h]

end Component

namespace Document

variable (boxes : Layout.Boxes Rat) (doc : Document Rat)

theorem pinnedAt_ids : (doc.pinnedAt boxes).components.map (·.id) = doc.components.map (·.id) := by
  rw [components, pinnedAt, Tree.values_forestMap, List.map_map]
  exact List.map_congr_left fun c _ => c.pinnedAt_id boxes

theorem pinnedAt_again : (doc.pinnedAt boxes).pinnedAt boxes = doc.pinnedAt boxes := by
  have hcomponent : Component.pinnedAt boxes ∘ Component.pinnedAt boxes =
      Component.pinnedAt boxes := funext (Component.pinnedAt_again boxes)
  simp only [pinnedAt, Tree.forestMap_map, hcomponent]

end Document

namespace Layout

/-- Two layouts of one tree differ by the way of its root. -/
theorem movedBy_between {d e : Diagram Rat} {forest : List (ComponentTree Rat)}
    (h : FlatView d forest) (k : FlatView e forest) {config : Config Rat}
    {boxes other : Boxes Rat} (hboxes : compute d config = some boxes)
    (hother : compute e config = some other) {t : ComponentTree Rat} (ht : t ∈ forest) :
    ∃ dx dy, MovedBy dx dy boxes other (treeIds t) := by
  obtain ⟨dx, dy, hd⟩ := movedBy_compute h hboxes ht
  obtain ⟨dx', dy', he⟩ := movedBy_compute k hother ht
  rw [← sizeRoots_congr (h.sameTree k)] at he
  exact ⟨_, _, hd.symm.trans he⟩

section

variable {doc : Document Rat} (h : (doc.components.map (·.id)).Nodup) {config : Config Rat}

include h

theorem flatView_pinnedAt (boxes : Boxes Rat) :
    FlatView (Build.diagram (doc.pinnedAt boxes)) doc.roots := by
  have hids : ((doc.pinnedAt boxes).components.map (·.id)).Nodup := by
    rwa [Document.pinnedAt_ids]
  exact (flatView_forestMap (Component.pinnedAt_id boxes)).mp (flatView_diagram hids)

omit h in
/-- The root of a document that is pinned where there is a box. -/
theorem root_mem_pinnedAt {boxes : Boxes Rat} {t : ComponentTree Rat} (ht : t ∈ doc.roots)
    {box : Box Rat} (hbox : boxes.get? t.value.id = some box) :
    ∃ r ∈ (Build.diagram (doc.pinnedAt boxes)).roots, r.id = t.value.id ∧ r.pinned = true ∧
      r.x = nearest box.x ∧ r.y = nearest box.y := by
  have hvalue : (Tree.map (Component.pinnedAt boxes) t).value =
      { t.value with x := some (nearest box.x : Rat), y := some (nearest box.y : Rat) } := by
    rw [Tree.value_map, Component.pinnedAt, hbox]
  have hmapped : Tree.map (Component.pinnedAt boxes) t ∈ (doc.pinnedAt boxes).roots := by
    rw [Document.pinnedAt, Tree.forestMap_eq_map]
    exact List.mem_map_of_mem ht
  refine ⟨Build.flatNode none 0 (Tree.map (Component.pinnedAt boxes) t).value
    (Tree.map (Component.pinnedAt boxes) t).children, ?_, ?_⟩
  · rw [Build.roots_diagram]
    exact List.mem_map_of_mem (f := fun t => Build.flatNode none 0 t.value t.children) hmapped
  · simp [Build.flatNode, hvalue]

section

variable {boxes pinned : Boxes Rat} (hboxes : compute (Build.diagram doc) config = some boxes)

include hboxes

/-- No root is anchored once all are pinned, so the layout ends. -/
theorem exists_compute_pinnedAt :
    ∃ pinned, compute (Build.diagram (doc.pinnedAt boxes)) config = some pinned := by
  have hview := flatView_pinnedAt h boxes
  refine exists_compute_of_unanchored (List.eq_nil_iff_forall_not_mem.mpr fun a ha => ?_) config
  have hproper := (resolveAnchors_isProper (Build.diagram (doc.pinnedAt boxes)) _).proper a ha
  obtain ⟨s, hs, hnode⟩ := hproper.node
  obtain ⟨t, ht, hid⟩ := hview.root hs
  obtain ⟨box, hbox⟩ := exists_box (flatView_diagram h) hboxes
    (mem_forestIds.mpr ⟨t, ht, id_mem_treeIds t⟩)
  obtain ⟨r, hr, hrid, hpinned, -⟩ := root_mem_pinnedAt ht hbox
  rw [hproper.unpinned r hr ((hrid.trans hid).trans hnode)] at hpinned
  cases hpinned

variable (hpinned : compute (Build.diagram (doc.pinnedAt boxes)) config = some pinned)

include hpinned

omit hboxes in
/-- A root is laid out where it is pinned. -/
theorem root_pinnedAt {t : ComponentTree Rat} (ht : t ∈ doc.roots) {box : Box Rat}
    (hbox : boxes.get? t.value.id = some box) : ∃ place, pinned.get? t.value.id = some place ∧
      place.x = nearest box.x ∧ place.y = nearest box.y := by
  obtain ⟨r, hr, hid, hfixed, hrx, hry⟩ := root_mem_pinnedAt ht hbox
  obtain ⟨place, hplace, hx, hy⟩ := pinned_compute (flatView_pinnedAt h boxes) hpinned hr hfixed
  exact ⟨place, hid ▸ hplace, hx.trans hrx, hy.trans hry⟩

/-- The layout of a document that is pinned at its layout is moved by what rounding its roots
does. -/
theorem movedBy_pinnedAt {t : ComponentTree Rat} (ht : t ∈ doc.roots) :
    ∃ box, boxes.get? t.value.id = some box ∧
      MovedBy (nearest box.x - box.x) (nearest box.y - box.y) boxes pinned (treeIds t) := by
  have hview := flatView_diagram h
  obtain ⟨box, hbox⟩ := exists_box hview hboxes (mem_forestIds.mpr ⟨t, ht, id_mem_treeIds t⟩)
  obtain ⟨place, hplace, hx, hy⟩ := root_pinnedAt h hpinned ht hbox
  obtain ⟨dx, dy, hmoved⟩ :=
    movedBy_between hview (flatView_pinnedAt h boxes) hboxes hpinned ht
  obtain ⟨rfl, rfl⟩ := hmoved.vector (id_mem_treeIds t) hbox hplace
  rw [hx, hy] at hmoved
  exact ⟨box, hbox, hmoved⟩

/-- Pinned once more, the layout stays. -/
theorem get?_pinnedAt_again {again : Boxes Rat}
    (hagain : compute (Build.diagram ((doc.pinnedAt boxes).pinnedAt pinned)) config = some again)
    {id : String} (hid : id ∈ forestIds doc.roots) : again.get? id = pinned.get? id := by
  have hfirst : ((doc.pinnedAt boxes).components.map (·.id)).Nodup := by
    rwa [Document.pinnedAt_ids]
  have hids : id ∈ forestIds (doc.pinnedAt boxes).roots :=
    (congrArg (id ∈ ·) (Document.pinnedAt_ids boxes doc)).mpr hid
  obtain ⟨u, hu, hid⟩ := mem_forestIds.mp hids
  obtain ⟨box, hbox, hmoved⟩ := movedBy_pinnedAt hfirst hpinned hagain hu
  obtain ⟨t, ht, rfl⟩ : ∃ t ∈ doc.roots, Tree.map (Component.pinnedAt boxes) t = u := by
    simpa only [Document.pinnedAt, Tree.forestMap_eq_map, List.mem_map] using hu
  obtain ⟨start, hstart⟩ := exists_box (flatView_diagram h) hboxes
    (mem_forestIds.mpr ⟨t, ht, id_mem_treeIds t⟩)
  obtain ⟨place, hplace, hx, hy⟩ := root_pinnedAt h hpinned ht hstart
  -- The root is at integers already, so it is not moved again.
  rw [Tree.value_map, Component.pinnedAt_id, hplace] at hbox
  cases hbox
  rw [hx, hy, nearest_intCast, nearest_intCast, sub_self, sub_self] at hmoved
  exact hmoved.same id hid

end

end

end Layout

end ComponentDiagram
