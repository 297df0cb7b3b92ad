import ComponentDiagram.Proofs.Layout.Containment

/-! Which boxes of a layout can overlap. Below one root only those of a component and of what it
holds do; the boxes of two roots do only if the author has pinned one of them. -/
namespace ComponentDiagram.Layout

/-- A box inside another. -/
structure Box.Within (inner outer : Box Rat) : Prop where
  left : outer.left ≤ inner.left
  right : inner.right ≤ outer.right
  top : outer.top ≤ inner.top
  bottom : inner.bottom ≤ outer.bottom

theorem Box.Within.refl (b : Box Rat) : b.Within b :=
  ⟨le_refl _, le_refl _, le_refl _, le_refl _⟩

theorem Box.Within.trans {a b c : Box Rat} (h : a.Within b) (k : b.Within c) : a.Within c :=
  ⟨k.left.trans h.left, h.right.trans k.right, k.top.trans h.top, h.bottom.trans k.bottom⟩

/-- What is around boxes that intersect does so, too. -/
theorem Box.Within.intersects {a b a' b' : Box Rat} (ha : a.Within a') (hb : b.Within b')
    (h : a.intersects b = true) : a'.intersects b' = true := by
  obtain ⟨h₁, h₂, h₃, h₄⟩ := intersects_iff.mp h
  exact intersects_iff.mpr ⟨(ha.left.trans_lt h₁).trans_le hb.right,
    (hb.left.trans_lt h₂).trans_le ha.right, (ha.top.trans_lt h₃).trans_le hb.bottom,
    (hb.top.trans_lt h₄).trans_le ha.bottom⟩

/-- A box above another, which is not upside down. -/
def IsAbove (a b : Box Rat) : Prop := a.bottom ≤ b.top ∧ b.top ≤ b.bottom

instance : Trans IsAbove IsAbove IsAbove where
  trans h k := ⟨h.1.trans (h.2.trans k.1), k.2⟩

theorem IsAbove.clear {a b : Box Rat} (h : IsAbove a b) : a.intersects b = false := by
  rw [Bool.eq_false_iff]
  intro hi
  obtain ⟨-, -, -, hlt⟩ := intersects_iff.mp hi
  exact absurd h.1 (not_le.mpr hlt)

/-! ## Below one root -/

section

variable {config : Config Rat} (hc : config.IsNonneg)

include hc

/-- Children lie inside their container. -/
theorem HasRoom.within {box : Box Rat} {inner : List (Box Rat)} (h : HasRoom config box inner) :
    ∀ b ∈ inner, b.Within box := by
  have hside : 0 ≤ config.sidePadding := hc .sidePadding
  have hvertical : 0 ≤ config.verticalPadding := hc .verticalPadding
  have hlabel : 0 ≤ config.labelBand := hc .labelBand
  cases h with
  | leaf hw hh => simp
  | container hs =>
    intro b hb
    have hleft := hs.left b hb
    have hright := hs.right b hb
    have htop := hs.top b hb
    have hbottom := hs.bottom b hb
    exact ⟨by linarith, by linarith, by linarith, by linarith⟩

theorem HasRoom.height_nonneg {box : Box Rat} {inner : List (Box Rat)}
    (h : HasRoom config box inner) : box.top ≤ box.bottom := by
  have hleaf : 0 ≤ config.leafHeight := hc .leafHeight
  have hleast : 0 ≤ config.minContainerHeight := hc .minContainerHeight
  have hheight : 0 ≤ box.height := by
    cases h with
    | leaf hw hh => rw [hh]; exact hleaf
    | container hs => exact hleast.trans hs.height
  rw [Box.top_eq, Box.bottom_eq]
  linarith

/-- Children that are stacked are clear of one another. -/
theorem HasRoom.apart {box : Box Rat} {inner : List (Box Rat)} (h : HasRoom config box inner)
    (hi : ∀ b ∈ inner, b.top ≤ b.bottom) :
    inner.Pairwise fun a b => a.intersects b = false := by
  have hspacing : 0 ≤ config.childSpacing := hc .childSpacing
  cases h with
  | leaf hw hh => exact .nil
  | container hs =>
    have hchain : List.IsChain IsAbove _ := hs.spaced.imp_of_mem_imp fun above below _ hb hspaced =>
      ⟨by linarith, hi below hb⟩
    exact hchain.pairwise.imp fun hab => hab.clear

/-- What lies below a component lies inside its box. -/
theorem IsArranged.within {boxes : Boxes Rat} {t : ComponentTree Rat}
    (h : IsArranged config boxes t) {s : ComponentTree Rat} (hs : s ∈ Tree.subtrees t)
    {inner outer : Box Rat} (hi : boxes.get? s.value.id = some inner)
    (ho : boxes.get? t.value.id = some outer) : inner.Within outer := by
  induction t using subtree_induction generalizing outer with
  | h t ih =>
    rcases Tree.mem_subtrees.mp hs with rfl | hs
    · rw [hi] at ho
      cases ho
      exact .refl _
    · obtain ⟨c, hchild, hs⟩ := Tree.mem_forestSubtrees.mp hs
      obtain ⟨box, bs, hbox, hbs, hroom⟩ := h t (Tree.self_mem_subtrees t)
      rw [ho] at hbox
      cases hbox
      have hmem := List.mem_map_of_mem (f := fun c => boxes.get? c.value.id) hchild
      rw [hbs] at hmem
      obtain ⟨b, hb, hget⟩ := List.mem_map.mp hmem
      exact (ih c hchild (h.child hchild) hs hget.symm).trans (hroom.within hc b hb)

/-- Different children of a component are clear of one another. -/
theorem IsArranged.children_apart {boxes : Boxes Rat} {t : ComponentTree Rat}
    (h : IsArranged config boxes t) {c c' : ComponentTree Rat} (hm : c ∈ t.children)
    (hm' : c' ∈ t.children) (hne : c ≠ c') {b b' : Box Rat}
    (hb : boxes.get? c.value.id = some b) (hb' : boxes.get? c'.value.id = some b') :
    b.intersects b' = false := by
  obtain ⟨box, inner, -, hinner, hroom⟩ := h t (Tree.self_mem_subtrees t)
  have hheight : ∀ b ∈ inner, b.top ≤ b.bottom := by
    intro b hb
    have hmem := List.mem_map_of_mem (f := some) hb
    rw [← hinner] at hmem
    obtain ⟨c, hchild, hget⟩ := List.mem_map.mp hmem
    obtain ⟨own, bs, hown, -, hroom⟩ := h.child hchild c (Tree.self_mem_subtrees c)
    rw [hget] at hown
    cases hown
    exact hroom.height_nonneg hc
  have hpair : (t.children.map fun c => boxes.get? c.value.id).Pairwise fun o o' =>
      ∀ b b', o = some b → o' = some b' → b.intersects b' = false := by
    rw [hinner, List.pairwise_map]
    refine (hroom.apart hc hheight).imp fun hclear b b' hb hb' => ?_
    cases hb
    cases hb'
    exact hclear
  have : Std.Symm fun c c' : ComponentTree Rat => ∀ b b', boxes.get? c.value.id = some b →
      boxes.get? c'.value.id = some b' → b.intersects b' = false :=
    ⟨fun _ _ hclear b b' hb hb' => (intersects_comm b b').trans (hclear b' b hb' hb)⟩
  rw [List.pairwise_map] at hpair
  exact hpair.forall hm hm' hne b b' hb hb'

/-- Below one component, boxes that intersect are those of a component and of what it holds. -/
theorem IsArranged.apart {boxes : Boxes Rat} {t : ComponentTree Rat}
    (h : IsArranged config boxes t) {s u : ComponentTree Rat} (hs : s ∈ Tree.subtrees t)
    (hu : u ∈ Tree.subtrees t) {a b : Box Rat} (ha : boxes.get? s.value.id = some a)
    (hb : boxes.get? u.value.id = some b) (hi : a.intersects b = true) :
    s ∈ Tree.subtrees u ∨ u ∈ Tree.subtrees s := by
  induction t using subtree_induction with
  | h t ih =>
    rcases Tree.mem_subtrees.mp hs with rfl | hs'
    · exact .inr hu
    rcases Tree.mem_subtrees.mp hu with rfl | hu'
    · exact .inl hs
    obtain ⟨c, hm, hs'⟩ := Tree.mem_forestSubtrees.mp hs'
    obtain ⟨c', hm', hu'⟩ := Tree.mem_forestSubtrees.mp hu'
    by_cases hne : c = c'
    · subst hne
      exact ih c hm (h.child hm) hs' hu'
    obtain ⟨box, -, hbox, -⟩ := h.child hm c (Tree.self_mem_subtrees c)
    obtain ⟨box', -, hbox', -⟩ := h.child hm' c' (Tree.self_mem_subtrees c')
    have hclear := h.children_apart hc hm hm' hne hbox hbox'
    have hmeet := ((h.child hm).within hc hs' ha hbox).intersects
      ((h.child hm').within hc hu' hb hbox') hi
    rw [hclear] at hmeet
    cases hmeet

end

/-! ## The roots -/

/-- A root that the layout neither finds a position for nor anchors goes to the grid. -/
def IsGridded (d : Diagram Rat) (r : FlatNode Rat) : Prop :=
  r ∈ griddedRoots d.roots (resolveAnchors d d.roots).anchors

/-- The boxes of two ids intersect. -/
def Boxes.Meet (boxes : Boxes Rat) (first second : String) : Prop :=
  ∃ a b, boxes.get? first = some a ∧ boxes.get? second = some b ∧ a.intersects b = true

instance : Std.Symm IsClear := ⟨fun a b h => (intersects_comm b.2 a.2).trans h⟩

/-- The box of a root that is in a part of the schedule. -/
private theorem entry_mem {forest : List (ComponentTree Rat)} {start : Boxes Rat}
    {schedule : Schedule} {p : Placement Rat} (hf : Follows forest start schedule p)
    {part : Schedule} (hp : part ⊆ schedule) {id : String} (hid : id ∈ part.map (·.1))
    {b : Box Rat} (hb : p.boxes.get? id = some b) : (id, b) ∈ part := by
  obtain ⟨e, he, rfl⟩ := List.mem_map.mp hid
  rw [hf.done e (hp he)] at hb
  cases hb
  exact he

section

variable {d : Diagram Rat} {forest : List (ComponentTree Rat)} {config : Config Rat}

/-- Each root is in one of the three groups, and its box is the one that the group gives it. -/
private theorem root_cases {pinned grid anchored : Schedule} {p : Placement Rat}
    (hp : IsPlan d config pinned grid anchored)
    (hf : Follows forest (sizeRoots d config) (pinned ++ grid ++ anchored) p)
    {r : FlatNode Rat} (hr : r ∈ d.roots) {b : Box Rat} (hb : p.boxes.get? r.id = some b) :
    (r.pinned = true ∧ (r.id, b) ∈ pinned) ∨ (IsGridded d r ∧ (r.id, b) ∈ grid) ∨
      (r.id, b) ∈ anchored := by
  by_cases hpinned : r.pinned = true
  · refine .inl ⟨hpinned, entry_mem hf (by simp) ?_ hb⟩
    rw [hp.pinnedIds]
    exact List.mem_map_of_mem (List.mem_filter.mpr ⟨hr, hpinned⟩)
  by_cases hanchored : (resolveAnchors d d.roots).anchors.has r.id = true
  · refine .inr (.inr (entry_mem hf (by simp) ?_ hb))
    rw [hp.anchoredIds]
    exact Anchors.has_iff.mp hanchored
  · have hgridded : IsGridded d r :=
      List.mem_filter.mpr ⟨hr, by simp [hpinned, hanchored]⟩
    refine .inr (.inl ⟨hgridded, entry_mem hf (by simp) ?_ hb⟩)
    rw [hp.gridIds]
    exact List.mem_map_of_mem hgridded

/-- What is anchored is clear of all other roots. -/
private theorem anchored_clear {pinned grid anchored : Schedule}
    (hp : IsPlan d config pinned grid anchored) {a b : String × Box Rat}
    (ha : a ∈ pinned ++ grid ++ anchored) (hb : b ∈ anchored) (hne : a ≠ b) : IsClear a b := by
  rcases List.mem_append.mp ha with ha | ha
  · exact hp.anchoredApart a ha b hb
  · exact hp.anchoredClear.forall ha hb hne

variable (h : FlatView d forest) {boxes : Boxes Rat} (hboxes : compute d config = some boxes)

include h hboxes

/-- The boxes of different roots intersect only if one of them is pinned, and the other is pinned or
on the grid. -/
theorem roots_apart (hc : config.IsNonneg) {r s : FlatNode Rat} (hr : r ∈ d.roots)
    (hs : s ∈ d.roots) (hne : r.id ≠ s.id) (hm : boxes.Meet r.id s.id) :
    (r.pinned = true ∧ (s.pinned = true ∨ IsGridded d s)) ∨
      (s.pinned = true ∧ (r.pinned = true ∨ IsGridded d r)) := by
  obtain ⟨a, b, ha, hb, hi⟩ := hm
  obtain ⟨pinned, grid, anchored, p, hp, hf, rfl⟩ := exists_plan h hboxes
  have hdiffer : (r.id, a) ≠ (s.id, b) := fun he => hne (congrArg Prod.fst he)
  have hmeet : ¬ IsClear (r.id, a) (s.id, b) := by
    intro hclear
    rw [IsClear, hi] at hclear
    cases hclear
  rcases root_cases hp hf hr ha with ⟨hpr, hra⟩ | ⟨hgr, hra⟩ | hra <;>
    rcases root_cases hp hf hs hb with ⟨hps, hsb⟩ | ⟨hgs, hsb⟩ | hsb
  case inl.inl => exact .inl ⟨hpr, .inl hps⟩
  case inl.inr.inl => exact .inl ⟨hpr, .inr hgs⟩
  case inr.inl.inl => exact .inr ⟨hps, .inr hgr⟩
  case inr.inl.inr.inl => exact absurd ((hp.gridClear hc).forall hra hsb hdiffer) hmeet
  case inl.inr.inr => exact absurd (anchored_clear hp (by simp [hra]) hsb hdiffer) hmeet
  case inr.inl.inr.inr => exact absurd (anchored_clear hp (by simp [hra]) hsb hdiffer) hmeet
  case inr.inr.inl =>
    exact absurd (symm (anchored_clear hp (by simp [hsb]) hra hdiffer.symm)) hmeet
  case inr.inr.inr.inl =>
    exact absurd (symm (anchored_clear hp (by simp [hsb]) hra hdiffer.symm)) hmeet
  case inr.inr.inr.inr => exact absurd (anchored_clear hp (by simp [hra]) hsb hdiffer) hmeet

/-- A root that is anchored is clear of all other roots. -/
theorem anchored_apart {r : FlatNode Rat} (hr : r ∈ d.roots) {id : String} (hne : r.id ≠ id)
    (hanchored : (resolveAnchors d d.roots).anchors.has id = true) :
    ¬ boxes.Meet r.id id := by
  rintro ⟨a, b, ha, hb, hi⟩
  obtain ⟨pinned, grid, anchored, p, hp, hf, rfl⟩ := exists_plan h hboxes
  have hsb : (id, b) ∈ anchored := by
    refine entry_mem hf (by simp) ?_ hb
    rw [hp.anchoredIds]
    exact Anchors.has_iff.mp hanchored
  have hra : (r.id, a) ∈ pinned ++ grid ++ anchored := by
    rcases root_cases hp hf hr ha with ⟨-, hra⟩ | ⟨-, hra⟩ | hra <;> simp [hra]
  have hclear : IsClear (r.id, a) (id, b) :=
    anchored_clear hp hra hsb fun he => hne (congrArg Prod.fst he)
  rw [IsClear, hi] at hclear
  cases hclear

/-- If no root is pinned, boxes that intersect are those of a component and of what it holds. -/
theorem nodes_apart (hc : config.IsNonneg) (hfree : ∀ r ∈ d.roots, r.pinned = false)
    {t u : ComponentTree Rat} (ht : t ∈ Tree.forestSubtrees forest)
    (hu : u ∈ Tree.forestSubtrees forest) (hm : boxes.Meet t.value.id u.value.id) :
    t ∈ Tree.subtrees u ∨ u ∈ Tree.subtrees t := by
  obtain ⟨a, b, ha, hb, hi⟩ := hm
  obtain ⟨v, hv, ht⟩ := Tree.mem_forestSubtrees.mp ht
  obtain ⟨w, hw, hu⟩ := Tree.mem_forestSubtrees.mp hu
  have harranged := isArranged_compute h hboxes hv
  have harranged' := isArranged_compute h hboxes hw
  by_cases hsame : v = w
  · subst hsame
    exact harranged.apart hc ht hu ha hb hi
  obtain ⟨outer, -, houter, -⟩ := harranged v (Tree.self_mem_subtrees v)
  obtain ⟨outer', -, houter', -⟩ := harranged' w (Tree.self_mem_subtrees w)
  have hmeet := (harranged.within hc ht ha houter).intersects
    (harranged'.within hc hu hb houter') hi
  obtain ⟨r, hr, hrid⟩ := h.entry hv
  obtain ⟨s, hs, hsid⟩ := h.entry hw
  rw [← hrid] at houter
  rw [← hsid] at houter'
  have hne : r.id ≠ s.id := by
    rw [hrid, hsid]
    intro he
    exact hsame (eq_of_mem_treeIds h.distinct hv hw (id_mem_treeIds v) (he ▸ id_mem_treeIds w))
  rcases roots_apart h hboxes hc hr hs hne ⟨_, _, houter, houter', hmeet⟩ with ⟨hp, -⟩ | ⟨hp, -⟩
  · rw [hfree r hr] at hp
    cases hp
  · rw [hfree s hs] at hp
    cases hp

end

/-- In the layout of a document, boxes of different roots intersect only if one root is pinned and
the other is pinned or on the grid. So what is anchored is clear of all other roots, and without
pinned roots only a component and what it holds intersect. -/
theorem compute_apart (doc : Document Rat) (h : (doc.components.map (·.id)).Nodup)
    (config : Config Rat) (hc : config.IsNonneg) :
    let d := Build.diagram doc
    ∃ boxes, compute d config = some boxes ∧
    (∀ r ∈ d.roots, ∀ s ∈ d.roots, r.id ≠ s.id → boxes.Meet r.id s.id →
      (r.pinned = true ∧ (s.pinned = true ∨ IsGridded d s)) ∨
        (s.pinned = true ∧ (r.pinned = true ∨ IsGridded d r))) ∧
    (∀ r ∈ d.roots, ∀ s ∈ d.roots, r.id ≠ s.id →
      (resolveAnchors d d.roots).anchors.has s.id = true → ¬ boxes.Meet r.id s.id) ∧
    ((∀ r ∈ d.roots, r.pinned = false) → ∀ t ∈ Tree.forestSubtrees doc.roots,
      ∀ u ∈ Tree.forestSubtrees doc.roots, boxes.Meet t.value.id u.value.id →
      t ∈ Tree.subtrees u ∨ u ∈ Tree.subtrees t) := by
  intro d
  have hview := flatView_diagram h
  obtain ⟨boxes, hboxes⟩ := exists_compute (hc .childSpacing) d
  refine ⟨boxes, hboxes, ?_, ?_, ?_⟩
  · intro r hr s hs hne
    exact roots_apart hview hboxes hc hr hs hne
  · intro r hr s _ hne
    exact anchored_apart hview hboxes hr hne
  · intro hfree t ht u hu
    exact nodes_apart hview hboxes hc hfree ht hu

/-- A root that is anchored to another one, since it is joined to what that one holds. -/
def anchoredPair : Document Rat :=
  { roots := [.node { id := "a" } [.node { id := "b" } []], .node { id := "c" } []]
    connectors := [{ kind := .plain .short, id := "edge-0", source := ⟨"c", none⟩,
                     target := ⟨"b", none⟩ }] }

theorem compute_apart_anchoredPair : (anchoredPair.components.map (·.id)).Nodup ∧
    (Config.standard : Config Rat).IsNonneg ∧
    (resolveAnchors (Build.diagram anchoredPair) (Build.diagram anchoredPair).roots).anchors.has
      "c" = true ∧
    ∃ boxes, compute (Build.diagram anchoredPair) .standard = some boxes ∧
      ∀ t ∈ Tree.forestSubtrees anchoredPair.roots, ∀ u ∈ Tree.forestSubtrees anchoredPair.roots,
        boxes.Meet t.value.id u.value.id → t ∈ Tree.subtrees u ∨ u ∈ Tree.subtrees t := by
  have hdistinct : (anchoredPair.components.map (·.id)).Nodup := by decide
  have hfree : ∀ r ∈ (Build.diagram anchoredPair).roots, r.pinned = false := by decide +kernel
  obtain ⟨boxes, hboxes, -, -, hnodes⟩ :=
    compute_apart anchoredPair hdistinct .standard standard_isNonneg
  exact ⟨hdistinct, standard_isNonneg, by decide +kernel, boxes, hboxes, hnodes hfree⟩

end ComponentDiagram.Layout
