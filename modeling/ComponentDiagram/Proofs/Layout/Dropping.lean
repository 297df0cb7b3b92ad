import ComponentDiagram.Proofs.Layout.Dragging
import ComponentDiagram.Proofs.Layout.Stability

/-! Where a layout puts a component that was dragged before. It reads the position of a root that is
pinned, and no other position. -/
namespace ComponentDiagram

variable {α : Type}

/-- The entry of an id has its centre at a point. -/
def Diagram.IsAt (d : Diagram α) (id : String) (x y : α) : Prop :=
  ∃ n, d.node? id = some n ∧ n.x = x ∧ n.y = y

theorem Diagram.IsAt.unique {d : Diagram α} {id : String} {x y x' y' : α} (h : d.IsAt id x y)
    (k : d.IsAt id x' y') : x = x' ∧ y = y' := by
  obtain ⟨n, hn, rfl, rfl⟩ := h
  obtain ⟨m, hm, rfl, rfl⟩ := k
  rw [hn] at hm
  cases hm
  exact ⟨rfl, rfl⟩

/-- No root lies below another tree than its own. -/
theorem root_eq {forest : List (ComponentTree α)} (h : (forestIds forest).Nodup)
    {t u : ComponentTree α} (ht : t ∈ Tree.forestSubtrees forest) (hu : u ∈ forest)
    (hid : u.value.id ∈ treeIds t) : t = u := by
  obtain ⟨w, hw, hsub⟩ := Tree.mem_forestSubtrees.mp ht
  obtain rfl := eq_of_mem_treeIds h hw hu ((treeIds_sublist hsub).subset hid) (id_mem_treeIds u)
  refine (Tree.mem_subtrees.mp hsub).resolve_right fun hbelow => ?_
  have hnodup := h.sublist (treeIds_sublist_forest (Tree.mem_forestSubtrees_of_mem hw))
  exact (List.nodup_cons.mp hnodup).1 ((treeIds_sublist_forest hbelow).subset hid)

namespace Layout

/-! ## What a drag leaves to a layout -/

section

variable {d : Diagram Rat} {forest : List (ComponentTree Rat)} (h : FlatView d forest)
  {t : ComponentTree Rat} (ht : t ∈ Tree.forestSubtrees forest)

include h ht

/-- A layout puts a component at the centre of its box. -/
theorem apply_isAt {config : Config Rat} {boxes : Boxes Rat}
    (hboxes : compute d config = some boxes) : ∃ box, boxes.get? t.value.id = some box ∧
      (apply d boxes).IsAt t.value.id box.x box.y := by
  obtain ⟨box, hbox⟩ := exists_box h hboxes (id_mem_forestIds ht)
  obtain ⟨n, hn⟩ := h.exists_entry (id_mem_forestIds ht)
  have hplaced : (apply d boxes).node? t.value.id = some (boxed boxes n) := by
    rw [node?_apply, hn, Option.map_some]
  refine ⟨box, hbox, _, hplaced, ?_⟩
  rw [boxed, id_of_node? hn, hbox]
  exact ⟨rfl, rfl⟩

/-- A drag of a component that lies inside another one changes nothing that a layout reads. -/
theorem compute_dragged (hroot : t ∉ forest) (dx dy : Rat) (config : Config Rat) :
    compute (d.mapNodes (FlatNode.dragged t dx dy)) config = compute d config := by
  have hlinks := FlatNode.dragged_links t dx dy
  -- The flag is set as well, but below the roots no layout looks at it.
  have hroots : d.roots.map (FlatNode.dragged t dx dy) = d.roots := by
    refine (List.map_congr_left fun r hr => ?_).trans (List.map_id _)
    obtain ⟨u, hu, hid⟩ := h.root hr
    refine if_neg fun hmem => hroot ?_
    rw [← hid] at hmem
    rw [root_eq h.distinct ht hu hmem]
    exact hu
  have hids (ns : List (FlatNode Rat)) :
      (ns.map (FlatNode.dragged t dx dy)).map (·.id) = ns.map (·.id) := by
    rw [List.map_map]
    exact List.map_congr_left fun n _ => (hlinks n).1
  refine compute_congr_roots config ⟨?_, ?_, fun id => ?_⟩ ?_ rfl rfl
  · rw [Diagram.mapNodes_nodes, List.length_map]
  · rw [Diagram.roots_mapNodes hlinks, hids]
  · rw [Diagram.childrenOf_mapNodes hlinks, hids]
  · rw [Diagram.roots_mapNodes hlinks, hroots]

end

/-- A root that is dragged is laid out where it was dropped. -/
theorem dropped_root {d : Diagram Rat} {forest : List (ComponentTree Rat)} (h : FlatView d forest)
    {t : ComponentTree Rat} (ht : t ∈ forest) {n : FlatNode Rat} (hn : d.node? t.value.id = some n)
    {dx dy : Rat} {config : Config Rat} {d' : Diagram Rat}
    (hlaid : layout (d.mapNodes (FlatNode.dragged t dx dy)) config = some d') :
    d'.IsAt t.value.id (n.x + dx) (n.y + dy) := by
  obtain ⟨boxes, hboxes, rfl⟩ := Option.map_eq_some_iff.mp hlaid
  have hlinks := FlatNode.dragged_links t dx dy
  have hdragged := h.mapNodes hlinks
  obtain ⟨r, hr, hid⟩ := hdragged.entry ht
  have hdistinct := hdragged.ids ▸ hdragged.distinct
  have hnode : r = n.dragged t dx dy := by
    have hr' := node?_of_mem hdistinct (List.mem_filter.mp hr).1
    rw [hid, Diagram.node?_mapNodes fun n => (hlinks n).1, hn, Option.map_some] at hr'
    exact (Option.some.inj hr').symm
  have hown : n.dragged t dx dy = { n with x := n.x + dx, y := n.y + dy, pinned := true } := by
    rw [FlatNode.dragged, id_of_node? hn, if_pos (id_mem_treeIds t), beq_self_eq_true, Bool.or_true]
  rw [hown] at hnode
  obtain ⟨box, hbox, hx, hy⟩ := pinned_compute hdragged hboxes hr (hnode ▸ rfl)
  obtain ⟨box', hbox', hat⟩ := apply_isAt hdragged (Tree.mem_forestSubtrees_of_mem ht) hboxes
  rw [hid, hbox'] at hbox
  cases hbox
  rw [hx, hy, hnode] at hat
  exact hat

/-- A component inside another one that is dragged is put back by the next layout. -/
theorem dropped_nested {doc : Document Rat} (h : (doc.components.map (·.id)).Nodup)
    {t : ComponentTree Rat} (ht : t ∈ Tree.forestSubtrees doc.roots) (hroot : t ∉ doc.roots)
    {config : Config Rat} {d : Diagram Rat} (hlaid : layout (Build.diagram doc) config = some d)
    {n : FlatNode Rat} (hn : d.node? t.value.id = some n) (dx dy : Rat) :
    ∃ d', layout (d.mapNodes (FlatNode.dragged t dx dy)) config = some d' ∧
      d'.IsAt t.value.id n.x n.y := by
  have hbuilt := flatView_diagram h
  have hview := flatView_layout hbuilt hlaid
  obtain ⟨boxes, hboxes, rfl⟩ := Option.map_eq_some_iff.mp hlaid
  have hagain := (compute_dragged hview ht hroot dx dy config).trans (compute_apply hbuilt hboxes)
  obtain ⟨box, hbox, hfirst⟩ := apply_isAt hbuilt ht hboxes
  obtain ⟨box', hbox', hlater⟩ :=
    apply_isAt (hview.mapNodes (FlatNode.dragged_links t dx dy)) ht hagain
  rw [hbox] at hbox'
  cases hbox'
  obtain ⟨hx, hy⟩ := hfirst.unique ⟨n, hn, rfl, rfl⟩
  rw [hx, hy] at hlater
  exact ⟨_, by rw [layout, hagain, Option.map_some], hlater⟩

/-- Dragging a component moves it, in the flat view, to where it is dropped. -/
theorem drag_isAt {d : Diagram Rat} {forest : List (ComponentTree Rat)} (h : FlatView d forest)
    {t : ComponentTree Rat} (ht : t ∈ Tree.forestSubtrees forest) {n : FlatNode Rat}
    (hn : d.node? t.value.id = some n) (document : Document Rat) (dx dy : Rat) :
    let dragged := d.mapNodes (FlatNode.dragged t dx dy)
    (drag t.value.id dx dy).run ⟨d, document⟩ =
        .ok () ⟨dragged, dragTree document dragged t.value.id dx dy⟩ ∧
      dragged.IsAt t.value.id (n.x + dx) (n.y + dy) := by
  intro dragged
  refine ⟨?_, n.dragged t dx dy, ?_, ?_⟩
  · rw [drag_run, hn]
    simp only [drag_diagram h ht]
    rfl
  · rw [Diagram.node?_mapNodes fun n => (FlatNode.dragged_links t dx dy n).1, hn, Option.map_some]
  · rw [FlatNode.dragged, id_of_node? hn, if_pos (id_mem_treeIds t)]
    exact ⟨rfl, rfl⟩

/-- A component of a document with different ids, dragged in its layout and laid out again, is where
it was dropped if it is a root, whatever the settings are then. If it lies inside another one, it is
back where it was. So it stays where it was dropped exactly if it is a root, or was not moved. A
layout ends, here as elsewhere, if the spacing is not negative. -/
theorem dropped_stays_iff (doc : Document Rat) (h : (doc.components.map (·.id)).Nodup)
    (config : Config Rat) (document : Document Rat) (dx dy : Rat) :
    (0 ≤ config.childSpacing → ∃ d, layout (Build.diagram doc) config = some d) ∧
    ∀ d, layout (Build.diagram doc) config = some d →
      ∀ t ∈ Tree.forestSubtrees doc.roots, ∃ n v, d.node? t.value.id = some n ∧
        (drag t.value.id dx dy).run ⟨d, document⟩ = .ok () v ∧
        v.diagram.IsAt t.value.id (n.x + dx) (n.y + dy) ∧
        (∀ later, 0 ≤ later.childSpacing → ∃ d', layout v.diagram later = some d') ∧
        (t ∈ doc.roots → ∀ later d', layout v.diagram later = some d' →
          d'.IsAt t.value.id (n.x + dx) (n.y + dy)) ∧
        (t ∉ doc.roots → ∃ d', layout v.diagram config = some d' ∧ d'.IsAt t.value.id n.x n.y) ∧
        ∀ d', layout v.diagram config = some d' →
          (d'.IsAt t.value.id (n.x + dx) (n.y + dy) ↔ t ∈ doc.roots ∨ dx = 0 ∧ dy = 0) := by
  refine ⟨fun hspacing => exists_layout hspacing _, fun d hlaid t ht => ?_⟩
  have hview := flatView_layout (flatView_diagram h) hlaid
  obtain ⟨n, hn⟩ := hview.exists_entry (id_mem_forestIds ht)
  obtain ⟨hdrag, hdropped⟩ := drag_isAt hview ht hn document dx dy
  have hnested (hr : t ∉ doc.roots) := dropped_nested h ht hr hlaid hn dx dy
  refine ⟨n, _, hn, hdrag, hdropped, fun _ hspacing => exists_layout hspacing _,
    fun hr _ _ => dropped_root hview hr hn, hnested, fun d' hd' => ⟨fun hat => ?_, fun hstays => ?_⟩⟩
  · by_cases hr : t ∈ doc.roots
    · exact .inl hr
    · obtain ⟨_, hlast, hback⟩ := hnested hr
      cases hd'.symm.trans hlast
      obtain ⟨hx, hy⟩ := hat.unique hback
      exact .inr ⟨by linarith, by linarith⟩
  · by_cases hr : t ∈ doc.roots
    · exact dropped_root hview hr hn hd'
    · obtain ⟨rfl, rfl⟩ := hstays.resolve_left hr
      obtain ⟨_, hlast, hback⟩ := hnested hr
      cases hd'.symm.trans hlast
      rwa [add_zero, add_zero]

/-- The outer component stays where it is dropped, also with other settings. -/
theorem dropped_stays_iff_nestedTrio : (nestedTrio.components.map (·.id)).Nodup ∧
    ∃ d n v d', layout (Build.diagram nestedTrio) .standard = some d ∧
      d.node? "a" = some n ∧ (drag "a" 10 20).run ⟨d, nestedTrio⟩ = .ok () v ∧
      layout v.diagram (Config.standard.set .leafWidth 200) = some d' ∧
      d'.IsAt "a" (n.x + 10) (n.y + 20) := by
  have hdistinct : (nestedTrio.components.map (·.id)).Nodup := by decide
  obtain ⟨hends, hstays⟩ := dropped_stays_iff nestedTrio hdistinct .standard nestedTrio 10 20
  obtain ⟨d, hd⟩ := hends standard_spacing
  obtain ⟨n, v, hn, hdrag, -, hlater, hroot, -, -⟩ := hstays d hd _ (List.mem_cons_self ..)
  obtain ⟨d', hd'⟩ := hlater (Config.standard.set .leafWidth 200) standard_spacing
  exact ⟨hdistinct, d, n, v, d', hd, hn, hdrag, hd', hroot (List.mem_cons_self ..) _ d' hd'⟩

/-- A component inside another one does not stay where it is dropped. -/
theorem dropped_returns : ∃ doc : Document Rat, (doc.components.map (·.id)).Nodup ∧
    ∃ d n v d', layout (Build.diagram doc) .standard = some d ∧ d.node? "c" = some n ∧
      (drag "c" 10 20).run ⟨d, doc⟩ = .ok () v ∧ layout v.diagram .standard = some d' ∧
      ¬ d'.IsAt "c" (n.x + 10) (n.y + 20) := by
  let inner : ComponentTree Rat := .node { id := "c" } []
  let doc : Document Rat := { roots := [.node { id := "p" } [inner]] }
  have hdistinct : (doc.components.map (·.id)).Nodup := by decide
  have hinner : inner ∈ Tree.forestSubtrees doc.roots := List.mem_cons_of_mem _ (List.mem_cons_self ..)
  have hroot : inner ∉ doc.roots := by
    intro hmem
    cases List.mem_singleton.mp hmem
  obtain ⟨d, hlaid⟩ := exists_layout standard_spacing (Build.diagram doc)
  have hview := flatView_layout (flatView_diagram hdistinct) hlaid
  obtain ⟨n, hn⟩ := hview.exists_entry (id_mem_forestIds hinner)
  obtain ⟨d', hd', hback⟩ := dropped_nested hdistinct hinner hroot hlaid hn 10 20
  refine ⟨doc, hdistinct, d, n, _, d', hlaid, hn, (drag_isAt hview hinner hn doc 10 20).1, hd',
    fun hat => ?_⟩
  obtain ⟨hx, -⟩ := hat.unique hback
  linarith

end Layout

end ComponentDiagram
