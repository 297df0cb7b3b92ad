import ComponentDiagram.Proofs.Layout.Anchoring
import ComponentDiagram.Proofs.Layout.Arranging
import ComponentDiagram.Proofs.Layout.Clearance
import ComponentDiagram.Proofs.Layout.Ending

/-! Roots are placed one after the other. Each is moved once, as a whole, and leaves all others
where they are. -/
namespace ComponentDiagram

variable {α : Type}

/-- Different trees of a forest have no id in common. -/
theorem eq_of_mem_treeIds {forest : List (ComponentTree α)} (h : (forestIds forest).Nodup)
    {t u : ComponentTree α} (ht : t ∈ forest) (hu : u ∈ forest) {id : String}
    (hit : id ∈ treeIds t) (hiu : id ∈ treeIds u) : t = u := by
  induction forest with
  | nil => cases ht
  | cons v forest ih =>
    rw [forestIds_cons, List.nodup_append] at h
    obtain ⟨-, hn, happart⟩ := h
    have hfirst {w : ComponentTree α} (hw : w ∈ forest) (hiw : id ∈ treeIds w) : id ∉ treeIds v :=
      fun hiv => happart id hiv id (mem_forestIds.mpr ⟨w, hw, hiw⟩) rfl
    rcases List.mem_cons.mp ht with ht | ht <;> rcases List.mem_cons.mp hu with hu | hu
    · rw [ht, hu]
    · exact absurd (ht ▸ hit) (hfirst hu hiu)
    · exact absurd (hu ▸ hiu) (hfirst ht hit)
    · exact ih hn ht hu

namespace Layout

/-- Ids of roots with their boxes, in the order in which they are placed. -/
abbrev Schedule := List (String × Box Rat)

/-- The roots of a schedule are placed, and all others are where they were. -/
structure Follows (forest : List (ComponentTree Rat)) (start : Boxes Rat) (schedule : Schedule)
    (p : Placement Rat) : Prop where
  placed : p.placed = schedule.map (·.1)
  ids : p.boxes.ids = start.ids
  known : ∀ e ∈ schedule, ∃ t ∈ forest, t.value.id = e.1
  moved : ∀ t ∈ forest, ∃ dx dy, MovedBy dx dy start p.boxes (treeIds t)
  done : ∀ e ∈ schedule, p.boxes.get? e.1 = some e.2
  rest : ∀ t ∈ forest, t.value.id ∉ schedule.map (·.1) →
    p.boxes.get? t.value.id = start.get? t.value.id

theorem follows_start (forest : List (ComponentTree Rat)) (start : Boxes Rat) :
    Follows forest start [] { boxes := start } :=
  ⟨rfl, rfl, by simp, fun _ _ => ⟨0, 0, movedBy_zero fun _ _ => rfl⟩, by simp, fun _ _ _ => rfl⟩

/-- The boxes of what is placed. -/
theorem Follows.boxes {forest : List (ComponentTree Rat)} {start : Boxes Rat} {schedule : Schedule}
    {p : Placement Rat} (h : Follows forest start schedule p) :
    p.placed.filterMap p.boxes.get? = schedule.map (·.2) := by
  have hdone := h.done
  rw [h.placed, List.filterMap_map]
  clear h
  induction schedule with
  | nil => rfl
  | cons e schedule ih =>
    obtain ⟨he, hschedule⟩ := List.forall_mem_cons.mp hdone
    rw [List.filterMap_cons_some (by exact he), ih hschedule]
    rfl

section

variable {d : Diagram Rat} {forest : List (ComponentTree Rat)} (h : FlatView d forest)
  {start : Boxes Rat}

include h

/-- One more root is placed. -/
theorem Follows.place {schedule : Schedule} {p : Placement Rat}
    (hp : Follows forest start schedule p) {t : ComponentTree Rat} (ht : t ∈ forest)
    (hnew : t.value.id ∉ schedule.map (·.1)) {box target : Box Rat}
    (hb : start.get? t.value.id = some box) (hsize : SameSize target box) :
    Follows forest start (schedule ++ [(t.value.id, target)]) (p.place d t.value.id target) := by
  have hbox : p.boxes.get? t.value.id = some box := (hp.rest t ht hnew).trans hb
  have hmem := Tree.mem_forestSubtrees_of_mem ht
  have hget := get?_shift h hmem p.boxes (target.x - box.x) (target.y - box.y)
  have hids := ids_shift d t.value.id p.boxes (target.x - box.x) (target.y - box.y)
  rw [Placement.place, hbox]
  simp only
  generalize shift d t.value.id p.boxes (target.x - box.x) (target.y - box.y) = after at hget hids ⊢
  have hother {u : ComponentTree Rat} (hu : u ∈ forest) (hne : u ≠ t) :
      ∀ id ∈ treeIds u, after.get? id = p.boxes.get? id := by
    intro id hid
    rw [hget, if_neg fun hid' => hne (eq_of_mem_treeIds h.distinct hu ht hid hid')]
  have hown : after.get? t.value.id = some target := by
    rw [hget, if_pos (id_mem_treeIds t), hbox, Option.map_some, hsize.translate_eq]
  constructor
  · rw [hp.placed, List.map_append]
    rfl
  · rw [hids, hp.ids]
  · rw [List.forall_mem_append, List.forall_mem_singleton]
    exact ⟨hp.known, t, ht, rfl⟩
  · intro u hu
    obtain ⟨dx, dy, hm⟩ := hp.moved u hu
    by_cases hne : u = t
    · subst hne
      have hlast : MovedBy (target.x - box.x) (target.y - box.y) p.boxes after (treeIds u) := by
        intro id hid
        rw [hget, if_pos hid]
      exact ⟨_, _, hm.trans hlast⟩
    · exact ⟨_, _, hm.trans (movedBy_zero (hother hu hne))⟩
  · rw [List.forall_mem_append, List.forall_mem_singleton]
    refine ⟨fun e he => ?_, hown⟩
    obtain ⟨u, hu, hid⟩ := hp.known e he
    have hne : u ≠ t := by
      rintro rfl
      exact hnew (hid ▸ List.mem_map_of_mem he)
    rw [← hid, hother hu hne _ (id_mem_treeIds u), hid]
    exact hp.done e he
  · intro u hu hid
    rw [List.map_append, List.mem_append, not_or] at hid
    have hne : u ≠ t := by
      rintro rfl
      exact hid.2 (List.mem_singleton_self _)
    rw [hother hu hne _ (id_mem_treeIds u)]
    exact hp.rest u hu hid.1

/-! ## The three groups -/

/-- Ids of different roots that are still to be placed. -/
structure Awaits (forest : List (ComponentTree Rat)) (schedule : Schedule) (ids : List String) :
    Prop where
  known : ∀ id ∈ ids, ∃ t ∈ forest, t.value.id = id
  nodup : ids.Nodup
  fresh : ∀ id ∈ ids, id ∉ schedule.map (·.1)

omit h in
/-- Once the first is placed, the others are still to be. -/
theorem Awaits.tail {schedule : Schedule} {id : String} {ids : List String}
    (ha : Awaits forest schedule (id :: ids)) (box : Box Rat) :
    Awaits forest (schedule ++ [(id, box)]) ids := by
  obtain ⟨hid, hids⟩ := List.nodup_cons.mp ha.nodup
  refine ⟨fun other ho => ha.known other (List.mem_cons_of_mem _ ho), hids, fun other ho => ?_⟩
  rw [List.map_append, List.mem_append, not_or]
  refine ⟨ha.fresh other (List.mem_cons_of_mem _ ho), fun heq => ?_⟩
  rw [List.mem_singleton.mp heq] at ho
  exact hid ho

/-- Pinned roots are placed where they are pinned. -/
theorem Follows.placePinned (hs : ∀ t ∈ forest, ∃ box, start.get? t.value.id = some box)
    {roots : List (FlatNode Rat)} {schedule : Schedule} {p : Placement Rat}
    (hp : Follows forest start schedule p) (ha : Awaits forest schedule (roots.map (·.id))) :
    ∃ more : Schedule,
      List.Forall₂ (fun e r => e.1 = r.id ∧ e.2.x = r.x ∧ e.2.y = r.y) more roots ∧
      Follows forest start (schedule ++ more) (roots.foldl (Placement.placePinned d) p) := by
  induction roots generalizing schedule p with
  | nil => exact ⟨[], .nil, by rwa [List.append_nil]⟩
  | cons r roots ih =>
    obtain ⟨t, ht, hid⟩ := ha.known r.id (List.mem_cons_self ..)
    have hnew := ha.fresh r.id (List.mem_cons_self ..)
    obtain ⟨box, hbox⟩ := hs t ht
    rw [← hid] at hnew
    have hsize : SameSize (box.moveTo r.x r.y) box := ⟨rfl, rfl⟩
    have hstep := hp.place h ht hnew hbox hsize
    rw [hid] at hstep
    obtain ⟨more, hmore, hf⟩ := ih hstep (ha.tail _)
    refine ⟨(r.id, box.moveTo r.x r.y) :: more, .cons ⟨rfl, rfl, rfl⟩ hmore, ?_⟩
    rw [List.foldl_cons, Placement.placePinned, ← hid, hp.rest t ht hnew, hbox, List.append_cons,
      hid]
    exact hf

/-- Roots are placed in the cells that they are given. -/
theorem Follows.placeGrid {cells : Schedule} {schedule : Schedule} {p : Placement Rat}
    (hp : Follows forest start schedule p) (ha : Awaits forest schedule (cells.map (·.1)))
    (hsize : ∀ e ∈ cells, ∃ box, start.get? e.1 = some box ∧ SameSize e.2 box) :
    Follows forest start (schedule ++ cells)
      (cells.foldl (fun p (id, cell) => p.place d id cell) p) := by
  induction cells generalizing schedule p with
  | nil => rwa [List.append_nil]
  | cons e cells ih =>
    obtain ⟨id, cell⟩ := e
    obtain ⟨t, ht, rfl⟩ := ha.known id (List.mem_cons_self ..)
    obtain ⟨⟨box, hbox, hsame⟩, hcells⟩ := List.forall_mem_cons.mp hsize
    have hstep := hp.place h ht (ha.fresh _ (List.mem_cons_self ..)) hbox hsame
    rw [List.append_cons]
    exact ih hstep (ha.tail _) hcells

/-- Two entries of a schedule whose boxes do not intersect. -/
def IsClear (a b : String × Box Rat) : Prop := a.2.intersects b.2 = false

omit h in
/-- A root is anchored clear of all that is placed. -/
private theorem exists_target {config : Config Rat} {schedule : Schedule} {p p' : Placement Rat}
    (hp : Follows forest start schedule p) {anchor : Anchor Rat} {box owner : Box Rat}
    (hb : p.boxes.get? anchor.node = some box) (ho : p.boxes.get? anchor.owner = some owner)
    (h : p.placeAnchored d config anchor = some p') :
    ∃ target, SameSize target box ∧ (∀ e ∈ schedule, IsClear e (anchor.node, target)) ∧
      p' = p.place d anchor.node target := by
  obtain ⟨-, hmissing⟩ | ⟨slides, last, ⟨box', owner', hbox, howner, hslides⟩, rfl⟩ :=
    placeAnchored_cases h
  · simp [hb, ho] at hmissing
  cases hb.symm.trans hbox
  have hstandOff := sameSize_standOff config anchor.port.side
    (portPoint owner' anchor.port.side anchor.port.offset) box
  rw [hp.boxes] at hslides
  refine ⟨last, ⟨hslides.sameSize.1.trans hstandOff.1, hslides.sameSize.2.trans hstandOff.2⟩,
    fun e he => ?_, rfl⟩
  rw [IsClear, intersects_comm]
  exact hslides.clear _ (List.mem_map_of_mem he)

/-- Anchored roots are placed clear of all that is placed before them. -/
theorem Follows.placeAnchored (hs : ∀ t ∈ forest, ∃ box, start.get? t.value.id = some box)
    {config : Config Rat} {anchors : Anchors Rat} {schedule : Schedule} {p q : Placement Rat}
    (hp : Follows forest start schedule p) (ha : Awaits forest schedule (anchors.map (·.node)))
    (howner : ∀ a ∈ anchors, ∃ t ∈ forest, t.value.id = a.owner)
    (hq : anchors.foldlM (Placement.placeAnchored d config) p = some q) :
    ∃ more : Schedule, more.map (·.1) = anchors.map (·.node) ∧ more.Pairwise IsClear ∧
      (∀ a ∈ schedule, ∀ b ∈ more, IsClear a b) ∧ Follows forest start (schedule ++ more) q := by
  induction anchors generalizing schedule p with
  | nil =>
    cases hq
    exact ⟨[], rfl, .nil, by simp, by rwa [List.append_nil]⟩
  | cons anchor anchors ih =>
    obtain ⟨t, ht, hid⟩ := ha.known anchor.node (List.mem_cons_self ..)
    obtain ⟨⟨u, hu, hown⟩, howners⟩ := List.forall_mem_cons.mp howner
    have hnew := ha.fresh anchor.node (List.mem_cons_self ..)
    obtain ⟨box, hbox⟩ := hs t ht
    rw [← hid] at hnew
    have hcurrent : p.boxes.get? anchor.node = some box := by
      rw [← hid, hp.rest t ht hnew, hbox]
    obtain ⟨box', hbox'⟩ := hs u hu
    obtain ⟨dx, dy, hmoved⟩ := hp.moved u hu
    have howned : p.boxes.get? anchor.owner = some (box'.translate dx dy) := by
      rw [← hown, hmoved _ (id_mem_treeIds u), hbox']
      rfl
    obtain ⟨p', hfirst, hrest⟩ := Option.bind_eq_some_iff.mp hq
    obtain ⟨target, hsize, hclear, rfl⟩ := exists_target hp hcurrent howned hfirst
    have hstep := hp.place h ht hnew hbox hsize
    rw [hid] at hstep
    obtain ⟨more, hmore, hpair, hall, hf⟩ := ih hstep (ha.tail _) howners hrest
    rw [List.forall_mem_append, List.forall_mem_singleton] at hall
    refine ⟨(anchor.node, target) :: more, by rw [List.map_cons, List.map_cons, hmore],
      List.pairwise_cons.mpr ⟨hall.2, hpair⟩, fun a ha b hb => ?_, ?_⟩
    · rcases List.mem_cons.mp hb with rfl | hb
      · exact hclear a ha
      · exact hall.1 a ha b hb
    · rw [List.append_cons]
      exact hf

omit h in
/-- Every root has its own cell, of its own size. -/
private theorem zip_cells {boxes : Boxes Rat} {ids : List String}
    (hb : ∀ id ∈ ids, ∃ box, boxes.get? id = some box) {cells : List (Box Rat)}
    (hc : List.Forall₂ SameSize cells (ids.filterMap boxes.get?)) :
    (ids.zip cells).map (·.1) = ids ∧ (ids.zip cells).map (·.2) = cells ∧
      ∀ e ∈ ids.zip cells, ∃ box, boxes.get? e.1 = some box ∧ SameSize e.2 box := by
  induction ids generalizing cells with
  | nil =>
    cases hc
    exact ⟨rfl, rfl, by simp⟩
  | cons id ids ih =>
    obtain ⟨⟨box, hbox⟩, hids⟩ := List.forall_mem_cons.mp hb
    rw [List.filterMap_cons_some hbox] at hc
    cases hc with
    | cons hsame hc =>
      obtain ⟨hfst, hsnd, hall⟩ := ih hids hc
      rw [List.zip_cons_cons, List.map_cons, List.map_cons, hfst, hsnd]
      exact ⟨rfl, rfl, List.forall_mem_cons.mpr ⟨⟨box, hbox, hsame⟩, hall⟩⟩

/-- Where the three groups of roots go. -/
structure IsPlan (d : Diagram Rat) (config : Config Rat) (pinned grid anchored : Schedule) :
    Prop where
  pinnedAt : List.Forall₂ (fun e r => e.1 = r.id ∧ e.2.x = r.x ∧ e.2.y = r.y) pinned
    (d.roots.filter (·.pinned))
  gridIds : grid.map (·.1) = (griddedRoots d.roots (resolveAnchors d d.roots).anchors).map (·.id)
  anchoredIds : anchored.map (·.1) = (resolveAnchors d d.roots).anchors.map (·.node)
  gridClear : config.IsNonneg → grid.Pairwise IsClear
  anchoredClear : anchored.Pairwise IsClear
  anchoredApart : ∀ a ∈ pinned ++ grid, ∀ b ∈ anchored, IsClear a b

omit h in
private theorem pinned_ids {pinned : Schedule} {roots : List (FlatNode Rat)}
    (hp : List.Forall₂ (fun e r => e.1 = r.id ∧ e.2.x = r.x ∧ e.2.y = r.y) pinned roots) :
    pinned.map (·.1) = roots.map (·.id) := by
  have hids := hp.imp fun _ _ he => he.1
  rwa [← List.forall₂_eq_eq_eq, List.forall₂_map_left_iff, List.forall₂_map_right_iff]

omit h in
theorem IsPlan.pinnedIds {config : Config Rat} {pinned grid anchored : Schedule}
    (hp : IsPlan d config pinned grid anchored) :
    pinned.map (·.1) = (d.roots.filter (·.pinned)).map (·.id) :=
  pinned_ids hp.pinnedAt

/-- A root without a position is not among the pinned ones. -/
private theorem not_pinned {r : FlatNode Rat} (hr : r ∈ d.roots) (hfree : r.pinned = false) :
    r.id ∉ (d.roots.filter (·.pinned)).map (·.id) := by
  intro hin
  obtain ⟨s, hs, hid⟩ := List.mem_map.mp hin
  obtain ⟨hmem, hpinned⟩ := List.mem_filter.mp hs
  rw [h.eq_of_root hmem hr hid, hfree] at hpinned
  cases hpinned

private theorem awaits_pinned : Awaits forest [] ((d.roots.filter (·.pinned)).map (·.id)) := by
  refine ⟨fun id hid => ?_, h.roots_nodup.sublist (List.filter_sublist.map _), by simp⟩
  obtain ⟨r, hr, rfl⟩ := List.mem_map.mp hid
  exact h.root (List.mem_filter.mp hr).1

private theorem awaits_gridded (anchors : Anchors Rat) {schedule : Schedule}
    (hs : schedule.map (·.1) = (d.roots.filter (·.pinned)).map (·.id)) :
    Awaits forest schedule ((griddedRoots d.roots anchors).map (·.id)) := by
  refine ⟨fun id hid => ?_, h.roots_nodup.sublist (List.filter_sublist.map _), fun id hid => ?_⟩
  · obtain ⟨r, hr, rfl⟩ := List.mem_map.mp hid
    exact h.root (List.mem_filter.mp hr).1
  · obtain ⟨r, hr, rfl⟩ := List.mem_map.mp hid
    obtain ⟨hmem, htest⟩ := List.mem_filter.mp hr
    rw [hs]
    exact not_pinned h hmem (by simp_all)

private theorem awaits_anchored {anchors : Anchors Rat} (ha : anchors.IsProper d.roots)
    {pinned grid : Schedule} (hp : pinned.map (·.1) = (d.roots.filter (·.pinned)).map (·.id))
    (hg : grid.map (·.1) = (griddedRoots d.roots anchors).map (·.id)) :
    Awaits forest (pinned ++ grid) (anchors.map (·.node)) := by
  refine ⟨fun id hid => ?_, ha.nodup, fun id hid => ?_⟩
  · obtain ⟨a, hmem, rfl⟩ := List.mem_map.mp hid
    obtain ⟨r, hr, hnode⟩ := (ha.proper a hmem).node
    rw [← hnode]
    exact h.root hr
  · obtain ⟨a, hmem, rfl⟩ := List.mem_map.mp hid
    obtain ⟨r, hr, hnode⟩ := (ha.proper a hmem).node
    rw [List.map_append, hp, hg, List.mem_append, not_or, ← hnode]
    refine ⟨not_pinned h hr ((ha.proper a hmem).unpinned r hr hnode), fun hin => ?_⟩
    obtain ⟨s, hs, hid'⟩ := List.mem_map.mp hin
    have htest := (List.mem_filter.mp hs).2
    rw [hid', hnode, Anchors.has_iff.mpr hid, Bool.not_true, Bool.and_false] at htest
    cases htest

/-- A layout follows a plan. -/
theorem exists_plan {config : Config Rat} {boxes : Boxes Rat}
    (hboxes : compute d config = some boxes) : ∃ pinned grid anchored p,
    IsPlan d config pinned grid anchored ∧
      Follows forest (sizeRoots d config) (pinned ++ grid ++ anchored) p ∧ p.boxes = boxes := by
  have hs : ∀ t ∈ forest, ∃ box, (sizeRoots d config).get? t.value.id = some box := by
    intro t ht
    obtain ⟨box, -, hbox, -⟩ := isArranged_sizeRoots h config ht t (Tree.self_mem_subtrees t)
    exact ⟨box, hbox⟩
  have hproper := resolveAnchors_isProper d d.roots
  obtain ⟨pinned, hat, hpinned⟩ :=
    (follows_start forest (sizeRoots d config)).placePinned h hs (awaits_pinned h)
  have hfirst := awaits_gridded h (resolveAnchors d d.roots).anchors (pinned_ids hat)
  have hgridded : ∀ id ∈ (griddedRoots d.roots (resolveAnchors d d.roots).anchors).map (·.id),
      ∃ box, (sizeRoots d config).get? id = some box := by
    intro id hid
    obtain ⟨t, ht, rfl⟩ := hfirst.known id hid
    exact hs t ht
  obtain ⟨hids, hcells, hsizes⟩ := zip_cells hgridded (sameSize_gridPositions config _)
  rw [← hids] at hfirst
  have hgrid := hpinned.placeGrid h hfirst hsizes
  have hlast := awaits_anchored h hproper (pinned_ids hat) hids
  have howner : ∀ a ∈ (resolveAnchors d d.roots).anchors, ∃ t ∈ forest, t.value.id = a.owner := by
    intro a ha
    obtain ⟨r, hr, hid⟩ := (hproper.proper a ha).owner
    rw [← hid]
    exact h.root hr
  obtain ⟨p, q, hp, hq, rfl⟩ := (compute_eq_some (List.nil_append _).symm).mp hboxes
  cases hp
  obtain ⟨anchored, hnodes, hclear, hapart, hdone⟩ := hgrid.placeAnchored h hs hlast howner hq
  refine ⟨pinned, _, anchored, _, ⟨hat, hids, hnodes, fun hc => ?_, hclear, hapart⟩, hdone, rfl⟩
  have hpair := (isGrid_gridPositions config (((griddedRoots d.roots
    (resolveAnchors d d.roots).anchors).map (·.id)).filterMap (sizeRoots d config).get?) hc).clear hc
  rw [← hcells, List.pairwise_map] at hpair
  exact hpair

end

end Layout

end ComponentDiagram
