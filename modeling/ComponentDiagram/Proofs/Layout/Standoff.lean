import ComponentDiagram.Proofs.Layout.Owners
import ComponentDiagram.Proofs.Layout.Separation

/-! How far an anchored root is from the side of its owner on which its port sits. -/
namespace ComponentDiagram.Layout

/-! ## One anchored box -/

/-- The distance from a side of the owner to the edge of a box that faces it. -/
def gap (side : Side) (owner box : Box Rat) : Rat :=
  match side with
  | .left => owner.left - box.right
  | .right => box.left - owner.right
  | .top => owner.top - box.bottom
  | .bottom => box.top - owner.bottom

theorem gap_standOff (config : Config Rat) (side : Side) (owner : Box Rat) (offset : Rat)
    (box : Box Rat) : gap side owner (standOff config side (portPoint owner side offset) box) =
      config.portStandoff := by
  have hhalf (x : Rat) : Scalar.half x = x / 2 := rfl
  cases side <;>
    simp only [gap, standOff, portPoint, Box.moveTo, Box.left, Box.right, Box.top, Box.bottom,
      hhalf] <;>
    ring

/-- A slide along a side keeps the distance from it. -/
theorem IsSlid.gap {side : Side} {box last : Box Rat} (h : IsSlid side box last) (owner : Box Rat) :
    Layout.gap side owner last = Layout.gap side owner box := by
  have hwidth := h.size.1
  have hheight := h.size.2
  have halong := h.along
  cases side <;> simp only [Side.isVertical, if_true, Bool.false_eq_true, if_false] at halong <;>
    simp only [Layout.gap, Box.left, Box.right, Box.top, Box.bottom, hwidth, hheight, halong.1]

/-! ## Anchored roots -/

section

variable {d : Diagram Rat} (h : d.HasOuterRoots) {r : FlatNode Rat} (hr : r ∈ d.roots)

include h hr

/-- Moving a root moves its own box once. -/
theorem get?_shift_own (boxes : Boxes Rat) (dx dy : Rat) :
    (shift d r.id boxes dx dy).get? r.id = (boxes.get? r.id).map (·.translate dx dy) := by
  rw [shift]
  split
  · rename_i hzero
    obtain ⟨hx, hy⟩ := Bool.and_eq_true_iff.mp hzero
    have hdx : dx = 0 := eq_of_beq hx
    have hdy : dy = 0 := eq_of_beq hy
    rw [hdx, hdy, map_translate_zero]
  · rw [List.foldl_cons, Boxes.get?_translate_of_not_mem (h.not_below hr r.id),
      Boxes.get?_translate, if_pos rfl]

/-- A root that is placed has the box that it is given. -/
theorem get?_place_own {p : Placement Rat} {box target : Box Rat}
    (hb : p.boxes.get? r.id = some box) (hsize : SameSize target box) :
    (p.place d r.id target).boxes.get? r.id = some target := by
  rw [Placement.place, hb]
  simp only
  rw [get?_shift_own h hr, hb, Option.map_some, hsize.translate_eq]

end

/-- An anchored root faces its owner at the distance that is set. -/
theorem gap_anchored {config : Config Rat} (hspacing : 0 ≤ config.childSpacing) {d : Diagram Rat}
    (h : d.HasOuterRoots) {boxes : Boxes Rat} (hboxes : compute d config = some boxes)
    {a : Anchor Rat} (ha : a ∈ (resolveAnchors d d.roots).anchors) :
    ∃ box owner, boxes.get? a.node = some box ∧ boxes.get? a.owner = some owner ∧
      gap a.port.side owner box = config.portStandoff := by
  have hproper := resolveAnchors_isProper d d.roots
  obtain ⟨r, hr, hnode⟩ := (hproper.proper a ha).node
  obtain ⟨before, after, hsplit⟩ := List.append_of_mem ha
  obtain ⟨p, owner, hp, howner, hfinal⟩ := owner_final h hsplit hboxes
  obtain ⟨p', q, hp', hq, rfl⟩ := (compute_eq_some hsplit).mp hboxes
  cases hp.symm.trans hp'
  obtain ⟨box, hbox⟩ := exists_box_placeBefore hr hp
  rw [hnode] at hbox
  -- What is placed later leaves the root where it is, as it does its owner.
  have hlater : r.id ∉ after.map (·.node) := by
    have hd := hproper.nodup
    rw [hsplit, List.map_append, List.map_cons] at hd
    rw [hnode]
    exact (List.nodup_cons.mp (List.nodup_append'.mp hd).2.1).1
  obtain ⟨placed, hplaced, hrest⟩ := Option.bind_eq_some_iff.mp hq
  obtain ⟨-, hmissing⟩ | ⟨slides, last, ⟨start, owner', hstart, howner', hslides⟩, rfl⟩ :=
    placeAnchored_cases hplaced
  · simp [hbox, howner] at hmissing
  cases hbox.symm.trans hstart
  cases howner.symm.trans howner'
  have hslid := hslides.isSlid hspacing
  have hstandOff := sameSize_standOff config a.port.side
    (portPoint owner a.port.side a.port.offset) box
  refine ⟨last, owner, ?_, hfinal, (hslid.gap owner).trans (gap_standOff ..)⟩
  rw [← hnode, get?_placeAllAnchored h hr hlater hrest, ← hnode]
  exact get?_place_own h hr (hnode ▸ hbox)
    ⟨hslid.size.1.trans hstandOff.1, hslid.size.2.trans hstandOff.2⟩

/-- A box slides clear of all placed ones in no more slides than there are boxes, and there is only
one way to slide. It keeps its size, moves along the side only and ahead if at all, and stays where
it is if it is clear already. So every layout ends, and in it every anchored root faces the side of
its owner on which its port sits at exactly the distance that is set, if no component holds one with
the id of a root, as in any document with different ids. -/
theorem slideClear_stands_off (config : Config Rat) (hspacing : 0 ≤ config.childSpacing) :
    (∀ side placed box, ∃ slides ≤ placed.length, ∃ last,
      slideClear config side placed box = some last ∧
      (∀ n other, Slides config side placed n box other ↔ n = slides ∧ other = last) ∧
      IsSlid side box last ∧ (∀ b ∈ placed, last.intersects b = false) ∧
      ((∀ b ∈ placed, box.intersects b = false) → last = box)) ∧
    (∀ d : Diagram Rat, ∃ boxes, compute d config = some boxes ∧
      (d.HasOuterRoots → ∀ a ∈ (resolveAnchors d d.roots).anchors,
        ∃ box owner, boxes.get? a.node = some box ∧ boxes.get? a.owner = some owner ∧
          gap a.port.side owner box = config.portStandoff)) ∧
    ∀ doc : Document Rat, (doc.components.map (·.id)).Nodup →
      (Build.diagram doc).HasOuterRoots := by
  refine ⟨fun side placed box => ?_, fun d => ?_, fun doc h => ?_⟩
  · obtain ⟨slides, last, hslides⟩ := exists_slides hspacing side placed box
    refine ⟨slides, hslides.length_le, last, slideClear_eq_some.mpr ⟨slides, hslides⟩,
      fun n other => ⟨fun h => h.unique hslides, ?_⟩, hslides.isSlid hspacing, hslides.clear,
      fun hclear => ?_⟩
    · rintro ⟨rfl, rfl⟩
      exact hslides
    · have hnone : placed.find? (box.intersects ·) = none := by simpa using hclear
      exact (hslides.unique (.done hnone)).2
  · obtain ⟨boxes, hboxes⟩ := exists_compute hspacing d
    exact ⟨boxes, hboxes, fun h a ha => gap_anchored hspacing h hboxes ha⟩
  · exact (Build.isLinked_of_nodes h rfl).hasOuterRoots

/-- Two components that are anchored to ports at one place: the second slides past the first. -/
def anchoredTwins : Document Rat :=
  { roots := [.node { id := "o" } [.node { id := "i" } []], .node { id := "x" } [],
      .node { id := "y" } []]
    connectors := [
      { kind := .plain .short, id := "edge-0", source := ⟨"x", none⟩, target := ⟨"i", none⟩ },
      { kind := .plain .short, id := "edge-1", source := ⟨"y", none⟩, target := ⟨"i", none⟩ }] }

theorem slideClear_stands_off_anchoredTwins :
    let d := Build.diagram anchoredTwins
    0 ≤ (Config.standard : Config Rat).childSpacing ∧
      (anchoredTwins.components.map (·.id)).Nodup ∧ d.HasOuterRoots ∧
      (resolveAnchors d d.roots).anchors.map (·.node) = ["x", "y"] ∧
      ∃ boxes, compute d .standard = some boxes ∧
        (∀ a ∈ (resolveAnchors d d.roots).anchors, ∃ box owner, boxes.get? a.node = some box ∧
          boxes.get? a.owner = some owner ∧ gap a.port.side owner box = 400) ∧
        (boxes.get? "x").map (·.y) ≠ (boxes.get? "y").map (·.y) := by
  intro d
  have hdistinct : (anchoredTwins.components.map (·.id)).Nodup := by decide
  obtain ⟨-, hgap, hroots⟩ := slideClear_stands_off .standard standard_spacing
  have houter : d.HasOuterRoots := hroots anchoredTwins hdistinct
  obtain ⟨boxes, hboxes, hgap⟩ := hgap d
  have hslid : (compute d .standard).map (fun boxes =>
      decide ((boxes.get? "x").map (·.y) ≠ (boxes.get? "y").map (·.y))) = some true := by
    decide +kernel
  rw [hboxes, Option.map_some, Option.some_inj, decide_eq_true_iff] at hslid
  exact ⟨standard_spacing, hdistinct, houter, by decide +kernel, boxes, hboxes, hgap houter, hslid⟩

end ComponentDiagram.Layout
