import ComponentDiagram.Proofs.Layout.Containment

/-! What the layout of a component depends on. Its size, and where all that it holds lies in it, come
from the shape of what it holds and from the settings; the rest of the diagram can only move it as a
whole. -/
namespace ComponentDiagram.Layout

/-! ## One container -/

/-- Stacks of boxes of the same sizes are one stack, moved. -/
private theorem stack_moved {config : Config Rat} {x x' dy : Rat} {inner inner' : List (Box Rat)}
    (hs : List.Forall₂ SameSize inner' inner) (hx : ∀ b ∈ inner, b.x = x)
    (hx' : ∀ b ∈ inner', b.x = x')
    (hc : inner.IsChain fun above below => below.top = above.bottom + config.childSpacing)
    (hc' : inner'.IsChain fun above below => below.top = above.bottom + config.childSpacing)
    (hy : ∀ b ∈ inner.head?, ∀ b' ∈ inner'.head?, b'.y = b.y + dy) :
    inner' = inner.map (·.translate (x' - x) dy) := by
  induction hs with
  | nil => rfl
  | @cons b' b rest' rest hsize hrest ih =>
    obtain ⟨hbx, hrestx⟩ := List.forall_mem_cons.mp hx
    obtain ⟨hbx', hrestx'⟩ := List.forall_mem_cons.mp hx'
    obtain ⟨hnext, hc⟩ := List.isChain_cons.mp hc
    obtain ⟨hnext', hc'⟩ := List.isChain_cons.mp hc'
    have hby : b'.y = b.y + dy := hy b rfl b' rfl
    have hb : b' = b.translate (x' - x) dy := by
      have hx : b'.x - b.x = x' - x := by rw [hbx, hbx']
      have hy : b'.y - b.y = dy := by rw [hby, add_sub_cancel_left]
      rw [← hx, ← hy, hsize.translate_eq]
    -- The next boxes hang below boxes that are moved, and are as high as each other.
    have hheads : ∀ c ∈ rest.head?, ∀ c' ∈ rest'.head?, c'.y = c.y + dy := by
      intro c hmem c' hmem'
      have htop := hnext c hmem
      have htop' := hnext' c' hmem'
      have hheight : c'.height = c.height := by
        cases hrest with
        | nil => cases hmem
        | cons hsize _ =>
          cases hmem
          cases hmem'
          exact hsize.2
      rw [hb, Box.translate_bottom, Box.top_eq, hheight] at htop'
      rw [Box.top_eq] at htop
      linarith
    rw [List.map_cons, ← hb, ← ih hrestx hrestx' hc hc' hheads]

/-- A container is moved with its children, if these keep their sizes. -/
theorem HasRoom.rigid {config : Config Rat} {box box' : Box Rat} {inner inner' : List (Box Rat)}
    (h : HasRoom config box inner) (h' : HasRoom config box' inner')
    (hs : List.Forall₂ SameSize inner' inner) :
    ∃ dx dy, box' = box.translate dx dy ∧ inner' = inner.map (·.translate dx dy) := by
  cases h with
  | leaf hw hh =>
    cases h' with
    | leaf hw' hh' =>
      have hsize : SameSize box' box := ⟨hw'.trans hw.symm, hh'.trans hh.symm⟩
      exact ⟨_, _, hsize.translate_eq.symm, rfl⟩
    | container => cases hs
  | @container first others hstack hbox =>
    cases h' with
    | leaf => cases hs
    | @container first' others' hstack' hbox' =>
      have hheads : ∀ b ∈ (first :: others).head?, ∀ b' ∈ (first' :: others').head?,
          b'.y = b.y + (first'.y - first.y) := by
        intro b hb b' hb'
        cases hb
        cases hb'
        rw [add_sub_cancel]
      obtain ⟨dx, dy, hinner⟩ : ∃ dx dy, first' :: others' =
          (first :: others).map (·.translate dx dy) :=
        ⟨_, _, stack_moved hs hstack.centre hstack'.centre hstack.spaced hstack'.spaced hheads⟩
      obtain ⟨hfirst, hothers⟩ := List.cons.inj hinner
      refine ⟨dx, dy, ?_, hinner⟩
      calc box' = enclose config first' others' := hbox'
        _ = enclose config (first.translate dx dy) (others.map (·.translate dx dy)) :=
          congrArg₂ (enclose config) hfirst hothers
        _ = (enclose config first others).translate dx dy := enclose_translate ..
        _ = box.translate dx dy := congrArg (·.translate dx dy) hbox.symm

/-! ## All that a component holds -/

section

variable {ts us : List (ComponentTree Rat)}
  (ho : Tree.forestMap (·.id) ts = Tree.forestMap (·.id) us)

include ho

private theorem rootIds_eq : ts.map (·.value.id) = us.map (·.value.id) := by
  rw [Tree.forestMap_eq_map, Tree.forestMap_eq_map] at ho
  have hids := congrArg (List.map Tree.value) ho
  simpa only [List.map_map, Function.comp_def, Tree.value_map] using hids

/-- Every tree has a twin in a forest of the same ids, with its id, that holds the same. -/
private theorem exists_twin {t : ComponentTree Rat} (ht : t ∈ ts) : ∃ u ∈ us,
    u.value.id = t.value.id ∧ Tree.forestMap (·.id) t.children = Tree.forestMap (·.id) u.children := by
  rw [Tree.forestMap_eq_map, Tree.forestMap_eq_map] at ho
  have hmem := List.mem_map_of_mem (f := Tree.map (·.id)) ht
  rw [ho] at hmem
  obtain ⟨u, hu, hmap⟩ := List.mem_map.mp hmem
  have hid := congrArg Tree.value hmap
  have hbelow := congrArg Tree.children hmap
  rw [Tree.value_map, Tree.value_map] at hid
  rw [Tree.children_map, Tree.children_map] at hbelow
  exact ⟨u, hu, hid, hbelow.symm⟩

end

/-- Boxes that are moved keep their sizes. -/
theorem MovedBy.sameSize {dx dy : Rat} {before after : Boxes Rat} {ids : List String}
    (h : MovedBy dx dy before after ids) {id : String} (hid : id ∈ ids) {box moved : Box Rat}
    (hb : before.get? id = some box) (hm : after.get? id = some moved) : SameSize moved box := by
  have hmoved := h id hid
  rw [hb, hm] at hmoved
  cases hmoved
  exact ⟨rfl, rfl⟩

/-- Each of the same children has a box of the same size. -/
private theorem sameSize_children {boxes boxes' : Boxes Rat} {cs : List (ComponentTree Rat)}
    {inner inner' : List (Box Rat)}
    (hinner : cs.map (fun c => boxes.get? c.value.id) = inner.map some)
    (hinner' : cs.map (fun c => boxes'.get? c.value.id) = inner'.map some)
    (h : ∀ c ∈ cs, ∃ dx dy, MovedBy dx dy boxes boxes' (treeIds c)) :
    List.Forall₂ SameSize inner' inner := by
  have hpairs : List.Forall₂ (fun o' o => ∀ b' b, o' = some b' → o = some b → SameSize b' b)
      (inner'.map some) (inner.map some) := by
    rw [← hinner, ← hinner', List.forall₂_map_left_iff, List.forall₂_map_right_iff, List.forall₂_same]
    intro c hc b' b hb' hb
    obtain ⟨dx, dy, hm⟩ := h c hc
    exact hm.sameSize (id_mem_treeIds c) hb hb'
  rw [List.forall₂_map_left_iff, List.forall₂_map_right_iff] at hpairs
  exact hpairs.imp fun b' b hb => hb b' b rfl rfl

/-- Two components that hold the same are arranged in the same way, one as the other, moved. -/
theorem IsArranged.rigid {config : Config Rat} {boxes boxes' : Boxes Rat} {t t' : ComponentTree Rat}
    (h : IsArranged config boxes t) (h' : IsArranged config boxes' t')
    (ho : Tree.forestMap (·.id) t.children = Tree.forestMap (·.id) t'.children) :
    ∃ dx dy, boxes'.get? t'.value.id = (boxes.get? t.value.id).map (·.translate dx dy) ∧
      MovedBy dx dy boxes boxes' (forestIds t.children) := by
  induction t using subtree_induction generalizing t' with
  | h t ih =>
    obtain ⟨box, inner, hbox, hinner, hroom⟩ := h t (Tree.self_mem_subtrees t)
    obtain ⟨box', inner', hbox', hinner', hroom'⟩ := h' t' (Tree.self_mem_subtrees t')
    have hchildren : ∀ c ∈ t.children, ∃ dx dy, MovedBy dx dy boxes boxes' (treeIds c) := by
      intro c hc
      obtain ⟨c', hc', hid, hbelow⟩ := exists_twin ho hc
      obtain ⟨dx, dy, hown, hm⟩ := ih c hc (h.child hc) (h'.child hc') hbelow
      rw [hid] at hown
      exact ⟨dx, dy, List.forall_mem_cons.mpr ⟨hown, hm⟩⟩
    have hget : t.children.map (fun c => boxes'.get? c.value.id) = inner'.map some := by
      have hids := congrArg (List.map boxes'.get?) (rootIds_eq ho)
      rw [List.map_map, List.map_map] at hids
      exact hids.trans hinner'
    obtain ⟨dx, dy, hmoved, hall⟩ := hroom.rigid hroom' (sameSize_children hinner hget hchildren)
    refine ⟨dx, dy, by rw [hbox, hbox', hmoved]; rfl, fun id hid => ?_⟩
    obtain ⟨c, hc, hid⟩ := mem_forestIds.mp hid
    -- A child is moved as its container is, so all that it holds is.
    have hboxes : t.children.map (fun c => boxes'.get? c.value.id) =
        t.children.map fun c => (boxes.get? c.value.id).map (·.translate dx dy) := by
      have hmap := congrArg (List.map (Option.map fun b : Box Rat => b.translate dx dy)) hinner
      rw [List.map_map, List.map_map] at hmap
      rw [hget, hall, List.map_map]
      exact hmap.symm
    have hown := List.map_inj_left.mp hboxes c hc
    obtain ⟨b, -, hb, -⟩ := h.child hc c (Tree.self_mem_subtrees c)
    rw [hb, Option.map_some] at hown
    obtain ⟨ex, ey, hm⟩ := hchildren c hc
    obtain ⟨hex, hey⟩ := hm.vector (id_mem_treeIds c) hb hown
    rw [Box.translate_x, add_sub_cancel_left] at hex
    rw [Box.translate_y, add_sub_cancel_left] at hey
    rw [hm id hid, hex, hey]

/-! ## Two diagrams -/

/-- With all that it holds, a component is arranged wherever it lies. -/
theorem isArranged_subtree {d : Diagram Rat} {forest : List (ComponentTree Rat)}
    (h : FlatView d forest) {config : Config Rat} {boxes : Boxes Rat}
    (hboxes : compute d config = some boxes) {t : ComponentTree Rat}
    (ht : t ∈ Tree.forestSubtrees forest) : IsArranged config boxes t := by
  intro s hs
  rcases Tree.mem_subtrees.mp hs with rfl | hs
  · exact hasRoom_compute h hboxes ht
  · exact hasRoom_compute h hboxes (Tree.forestSubtrees_below ht s hs)

/-- Components of two documents that hold the same are laid out in the same way, wherever they are
held and whatever else there is: they are of one size, and what they hold is of the same sizes and
at the same places in them. Both layouts end if the spacing is not negative. -/
theorem compute_rigid (doc doc' : Document Rat) (h : (doc.components.map (·.id)).Nodup)
    (h' : (doc'.components.map (·.id)).Nodup) (config : Config Rat) {t t' : ComponentTree Rat}
    (ht : t ∈ Tree.forestSubtrees doc.roots) (ht' : t' ∈ Tree.forestSubtrees doc'.roots)
    (ho : Tree.forestMap (·.id) t.children = Tree.forestMap (·.id) t'.children) :
    (0 ≤ config.childSpacing → (∃ boxes, compute (Build.diagram doc) config = some boxes) ∧
      ∃ boxes, compute (Build.diagram doc') config = some boxes) ∧
    ∀ boxes boxes', compute (Build.diagram doc) config = some boxes →
      compute (Build.diagram doc') config = some boxes' →
      ∃ box box', boxes.get? t.value.id = some box ∧ boxes'.get? t'.value.id = some box' ∧
        SameSize box' box ∧
        ∀ id ∈ forestIds t.children, ∃ b b', boxes.get? id = some b ∧ boxes'.get? id = some b' ∧
          SameSize b' b ∧ b'.x - box'.x = b.x - box.x ∧ b'.y - box'.y = b.y - box.y := by
  refine ⟨fun hspacing => ⟨exists_compute hspacing _, exists_compute hspacing _⟩,
    fun boxes boxes' hboxes hboxes' => ?_⟩
  have hview := flatView_diagram h
  have hview' := flatView_diagram h'
  obtain ⟨dx, dy, hown, hbelow⟩ :=
    (isArranged_subtree hview hboxes ht).rigid (isArranged_subtree hview' hboxes' ht') ho
  obtain ⟨box, hbox⟩ := exists_box hview hboxes (id_mem_forestIds ht)
  rw [hbox] at hown
  refine ⟨box, box.translate dx dy, hbox, hown, ⟨rfl, rfl⟩, fun id hid => ?_⟩
  obtain ⟨s, hs, rfl⟩ := mem_forestIds_iff.mp hid
  obtain ⟨b, hb⟩ := exists_box hview hboxes (id_mem_forestIds (Tree.forestSubtrees_below ht s hs))
  refine ⟨b, b.translate dx dy, hb, by rw [hbelow _ hid, hb]; rfl, ⟨rfl, rfl⟩, ?_, ?_⟩
  · rw [Box.translate_x, Box.translate_x, add_sub_add_right_eq_sub]
  · rw [Box.translate_y, Box.translate_y, add_sub_add_right_eq_sub]

/-- The two components of `nestedTrio`, held by another one that a pinned root holds, beside a root
that is anchored to one of them. -/
def rehousedTrio : Document Rat :=
  { roots := [.node { id := "e", x := some 4, y := some 8 } [.node { id := "f" } [],
      .node { id := "g" } [.node { id := "b" } [], .node { id := "c", x := some 1 } []]],
      .node { id := "h" } []]
    connectors := [{ kind := .plain .short, id := "edge-0", source := ⟨"h", none⟩,
                     target := ⟨"b", none⟩ }] }

theorem compute_rigid_rehousedTrio : (nestedTrio.components.map (·.id)).Nodup ∧
    (rehousedTrio.components.map (·.id)).Nodup ∧
    ∃ boxes boxes', compute (Build.diagram nestedTrio) .standard = some boxes ∧
      compute (Build.diagram rehousedTrio) .standard = some boxes' ∧
      ∃ box box', boxes.get? "a" = some box ∧ boxes'.get? "g" = some box' ∧ SameSize box' box ∧
        ∀ id ∈ ["b", "c"], ∃ b b', boxes.get? id = some b ∧ boxes'.get? id = some b' ∧
          SameSize b' b ∧ b'.x - box'.x = b.x - box.x ∧ b'.y - box'.y = b.y - box.y := by
  have hdistinct : (nestedTrio.components.map (·.id)).Nodup := by decide
  have hdistinct' : (rehousedTrio.components.map (·.id)).Nodup := by decide
  have hmem : .node { id := "a" } [.node { id := "b", x := some 7, y := some 9 } [],
      .node { id := "c" } []] ∈ Tree.forestSubtrees nestedTrio.roots := List.mem_cons_self ..
  have hmem' : .node { id := "g" } [.node { id := "b" } [], .node { id := "c", x := some 1 } []] ∈
      Tree.forestSubtrees rehousedTrio.roots :=
    List.mem_cons_of_mem _ (List.mem_cons_of_mem _ (List.mem_cons_self ..))
  obtain ⟨hends, hrigid⟩ :=
    compute_rigid nestedTrio rehousedTrio hdistinct hdistinct' .standard hmem hmem' rfl
  obtain ⟨⟨boxes, hboxes⟩, boxes', hboxes'⟩ := hends standard_spacing
  exact ⟨hdistinct, hdistinct', boxes, boxes', hboxes, hboxes',
    hrigid boxes boxes' hboxes hboxes'⟩

end ComponentDiagram.Layout
