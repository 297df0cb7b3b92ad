import ComponentDiagram.Proofs.Layout.Placing

/-! Every component of a layout has a box, and every container lies around the stack of its
children. -/
namespace ComponentDiagram.Layout

section

variable {d : Diagram Rat} {forest : List (ComponentTree Rat)} (h : FlatView d forest)
  {config : Config Rat} {boxes : Boxes Rat} (hboxes : compute d config = some boxes)

include h hboxes

/-- A root is moved as a whole from where it was sized to its final place. -/
theorem movedBy_compute {t : ComponentTree Rat} (ht : t ∈ forest) :
    ∃ dx dy, MovedBy dx dy (sizeRoots d config) boxes (treeIds t) := by
  obtain ⟨_, _, _, p, -, hfollows, rfl⟩ := exists_plan h hboxes
  exact hfollows.moved t ht

theorem isArranged_compute {t : ComponentTree Rat} (ht : t ∈ forest) :
    IsArranged config boxes t := by
  obtain ⟨dx, dy, hmoved⟩ := movedBy_compute h hboxes ht
  exact (isArranged_sizeRoots h config ht).move hmoved

theorem ids_compute : boxes.ids.Perm (forestIds forest) := by
  obtain ⟨_, _, _, p, -, hfollows, rfl⟩ := exists_plan h hboxes
  rw [hfollows.ids]
  exact ids_sizeRoots h config

/-- What has a box is a component. -/
theorem exists_box {id : String} (hid : id ∈ forestIds forest) : ∃ box, boxes.get? id = some box :=
  Boxes.mem_ids.mp ((ids_compute h hboxes).mem_iff.mpr hid)

/-- A component and the boxes of its children. -/
theorem hasRoom_compute {t : ComponentTree Rat} (ht : t ∈ Tree.forestSubtrees forest) :
    ∃ box inner, boxes.get? t.value.id = some box ∧
      t.children.map (fun c => boxes.get? c.value.id) = inner.map some ∧
      HasRoom config box inner := by
  obtain ⟨root, hroot, hsub⟩ := Tree.mem_forestSubtrees.mp ht
  exact isArranged_compute h hboxes hroot t hsub

end

/-- A layout ends if the spacing is not negative. It gives one box to every component, and the box
of a container lies around the stack of its children, with room for its label. -/
theorem compute_stacked (doc : Document Rat) (h : (doc.components.map (·.id)).Nodup)
    (config : Config Rat) :
    let d := Build.diagram doc
    (0 ≤ config.childSpacing → ∃ boxes, compute d config = some boxes) ∧
    ∀ boxes, compute d config = some boxes →
      (boxes.map (·.1)).Perm (doc.components.map (·.id)) ∧
      ∀ t ∈ Tree.forestSubtrees doc.roots, t.children ≠ [] → ∃ container children,
        boxes.get? t.value.id = some container ∧
        t.children.map (fun c => boxes.get? c.value.id) = children.map some ∧
        IsStacked config container children := by
  intro d
  have hview := flatView_diagram h
  refine ⟨fun hspacing => exists_compute hspacing d, fun boxes hboxes =>
    ⟨ids_compute hview hboxes, fun t ht hne => ?_⟩⟩
  obtain ⟨box, inner, hbox, hinner, hroom⟩ := hasRoom_compute hview hboxes ht
  refine ⟨box, inner, hbox, hinner, ?_⟩
  cases hroom with
  | leaf hw hh => exact absurd (List.map_eq_nil_iff.mp hinner) hne
  | container hs => exact hs

/-- A component around two others, of which one is pinned, beside a pinned root. -/
def nestedTrio : Document Rat :=
  { roots := [.node { id := "a" } [.node { id := "b", x := some 7, y := some 9 } [],
      .node { id := "c" } []], .node { id := "d", x := some 5, y := some (-3) } []] }

theorem compute_stacked_nestedTrio : (nestedTrio.components.map (·.id)).Nodup ∧
    ∃ boxes, compute (Build.diagram nestedTrio) .standard = some boxes ∧
      ∃ container children, boxes.get? "a" = some container ∧
        [boxes.get? "b", boxes.get? "c"] = children.map some ∧
        IsStacked .standard container children := by
  have hdistinct : (nestedTrio.components.map (·.id)).Nodup := by decide
  obtain ⟨hends, hstacked⟩ := compute_stacked nestedTrio hdistinct .standard
  obtain ⟨boxes, hboxes⟩ := hends standard_spacing
  refine ⟨hdistinct, boxes, hboxes, ?_⟩
  exact (hstacked boxes hboxes).2 _ (List.mem_cons_self ..) (by simp [Tree.children])

end ComponentDiagram.Layout
