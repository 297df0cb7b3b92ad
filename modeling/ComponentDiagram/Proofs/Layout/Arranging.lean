import ComponentDiagram.Layout.Engine
import ComponentDiagram.Proofs.Layout.Stacking

/-! Sizing gives a box to a component and to all that lies below it, every container stacked around
its children. -/
namespace ComponentDiagram

variable {α : Type}

theorem id_mem_treeIds (t : ComponentTree α) : t.value.id ∈ treeIds t := List.mem_cons_self ..

/-- The ids of a tree are those of its subtrees. -/
theorem mem_treeIds {t : ComponentTree α} {id : String} :
    id ∈ treeIds t ↔ ∃ s ∈ Tree.subtrees t, s.value.id = id := by
  obtain ⟨c, children⟩ := t
  simp only [treeIds, forestIds, Tree.values, Tree.subtrees, Tree.value, Tree.children,
    List.mem_cons, List.mem_map, exists_exists_and_eq_and]
  constructor
  · rintro (rfl | ⟨s, hs, rfl⟩)
    · exact ⟨_, .inl rfl, rfl⟩
    · exact ⟨s, .inr hs, rfl⟩
  · rintro ⟨s, rfl | hs, rfl⟩
    · exact .inl rfl
    · exact .inr ⟨s, hs, rfl⟩

theorem mem_treeIds_of_subtree {t s : ComponentTree α} (h : s ∈ Tree.subtrees t) :
    s.value.id ∈ treeIds t :=
  mem_treeIds.mpr ⟨s, h, rfl⟩

/-- The ids below a child are ids below the component. -/
theorem treeIds_child_subset {t c : ComponentTree α} (hc : c ∈ t.children) :
    treeIds c ⊆ forestIds t.children :=
  (treeIds_sublist_forest (Tree.mem_forestSubtrees_of_mem hc)).subset

namespace Layout

/-- The box of a component fits what the component holds, and takes no more room than that. -/
inductive HasRoom (config : Config Rat) : Box Rat → List (Box Rat) → Prop
  | leaf {box} : box.width = config.leafWidth → box.height = config.leafHeight →
      HasRoom config box []
  | container {box first others} : IsStacked config box (first :: others) →
      box = enclose config first others → HasRoom config box (first :: others)

theorem HasRoom.translate {config : Config Rat} {box : Box Rat} {inner : List (Box Rat)}
    (h : HasRoom config box inner) (dx dy : Rat) :
    HasRoom config (box.translate dx dy) (inner.map (·.translate dx dy)) := by
  cases h with
  | leaf hw hh => exact .leaf hw hh
  | container hs hbox =>
    exact .container (hs.translate dx dy) (hbox ▸ (enclose_translate ..).symm)

/-- A component and all that lies below it have boxes, each with room for its children. -/
def IsArranged (config : Config Rat) (boxes : Boxes Rat) (t : ComponentTree Rat) : Prop :=
  ∀ s ∈ Tree.subtrees t, ∃ box inner, boxes.get? s.value.id = some box ∧
    s.children.map (fun c => boxes.get? c.value.id) = inner.map some ∧ HasRoom config box inner

theorem IsArranged.child {config : Config Rat} {boxes : Boxes Rat} {t c : ComponentTree Rat}
    (h : IsArranged config boxes t) (hc : c ∈ t.children) : IsArranged config boxes c := by
  intro s hs
  exact h s (Tree.mem_subtrees.mpr (.inr (Tree.mem_forestSubtrees.mpr ⟨c, hc, hs⟩)))

/-- The boxes of some ids are moved by one vector. -/
def MovedBy (dx dy : Rat) (before after : Boxes Rat) (ids : List String) : Prop :=
  ∀ id ∈ ids, after.get? id = (before.get? id).map (·.translate dx dy)

theorem movedBy_zero {before after : Boxes Rat} {ids : List String}
    (h : ∀ id ∈ ids, after.get? id = before.get? id) : MovedBy 0 0 before after ids := by
  intro id hid
  rw [h id hid, map_translate_zero]

theorem MovedBy.same {before after : Boxes Rat} {ids : List String}
    (h : MovedBy 0 0 before after ids) : ∀ id ∈ ids, after.get? id = before.get? id := by
  intro id hid
  rw [h id hid, map_translate_zero]

theorem MovedBy.trans {dx dy dx' dy' : Rat} {a b c : Boxes Rat} {ids : List String}
    (h : MovedBy dx dy a b ids) (k : MovedBy dx' dy' b c ids) :
    MovedBy (dx + dx') (dy + dy') a c ids := by
  intro id hid
  rw [k id hid, h id hid]
  cases a.get? id with
  | none => rfl
  | some box =>
    exact congrArg₂ (fun x y => some (Box.mk x y box.width box.height)) (Rat.add_assoc ..)
      (Rat.add_assoc ..)

theorem MovedBy.symm {dx dy : Rat} {before after : Boxes Rat} {ids : List String}
    (h : MovedBy dx dy before after ids) : MovedBy (-dx) (-dy) after before ids := by
  intro id hid
  rw [h id hid]
  cases before.get? id with
  | none => rfl
  | some box =>
    exact congrArg₂ (fun x y => some (Box.mk x y box.width box.height))
      (add_neg_cancel_right box.x dx).symm (add_neg_cancel_right box.y dy).symm

/-- The vector is the way of any box that is moved. -/
theorem MovedBy.vector {dx dy : Rat} {before after : Boxes Rat} {ids : List String}
    (h : MovedBy dx dy before after ids) {id : String} (hid : id ∈ ids) {box moved : Box Rat}
    (hb : before.get? id = some box) (hm : after.get? id = some moved) :
    dx = moved.x - box.x ∧ dy = moved.y - box.y := by
  have hmoved := h id hid
  rw [hb, hm] at hmoved
  have hx : moved.x = box.x + dx := congrArg Box.x (Option.some.inj hmoved)
  have hy : moved.y = box.y + dy := congrArg Box.y (Option.some.inj hmoved)
  constructor <;> linarith

/-- Moved as a whole, a component keeps its arrangement. -/
theorem IsArranged.move {config : Config Rat} {before after : Boxes Rat} {t : ComponentTree Rat}
    (h : IsArranged config before t) {dx dy : Rat} (hm : MovedBy dx dy before after (treeIds t)) :
    IsArranged config after t := by
  intro s hs
  obtain ⟨box, inner, hbox, hinner, hroom⟩ := h s hs
  refine ⟨box.translate dx dy, inner.map (·.translate dx dy), ?_, ?_, hroom.translate dx dy⟩
  · rw [hm _ (mem_treeIds_of_subtree hs), hbox]
    rfl
  · have hchildren : ∀ c ∈ s.children, after.get? c.value.id =
        (before.get? c.value.id).map (·.translate dx dy) := fun c hc =>
      hm _ (mem_treeIds_of_subtree (Tree.children_subtrees hs c hc))
    have hmoved := congrArg (List.map (Option.map fun b : Box Rat => b.translate dx dy)) hinner
    rw [List.map_map, List.map_map] at hmoved
    rw [List.map_congr_left hchildren, List.map_map]
    exact hmoved

/-- A component keeps its arrangement if none of its boxes changes. -/
theorem IsArranged.congr {config : Config Rat} {before after : Boxes Rat} {t : ComponentTree Rat}
    (h : IsArranged config before t) (he : ∀ id ∈ treeIds t, after.get? id = before.get? id) :
    IsArranged config after t :=
  h.move (movedBy_zero he)

/-! ## One component -/

/-- What sizing a component does to the boxes. -/
structure IsSized (config : Config Rat) (t : ComponentTree Rat) (before after : Boxes Rat)
    (box : Box Rat) : Prop where
  arranged : IsArranged config after t
  own : after.get? t.value.id = some box
  other : ∀ id, id ∉ treeIds t → after.get? id = before.get? id
  nodup : before.ids.Nodup → after.ids.Nodup

/-- What putting a child under a stack does: it is sized and moved as a whole. -/
structure IsPushed (config : Config Rat) (x : Rat) (c : ComponentTree Rat) (stack pushed : Stack Rat)
    (box : Box Rat) : Prop where
  sized : IsSized config c stack.boxes pushed.boxes box
  centre : box.x = x
  below : ∀ above, stack.last = some above → box.top = above.bottom + config.childSpacing
  last : pushed.last = some box

/-- Children that are stacked so far. -/
structure IsPile (config : Config Rat) (x : Rat) (start : Boxes Rat)
    (done : List (ComponentTree Rat)) (stack : Stack Rat) (inner : List (Box Rat)) : Prop where
  arranged : ∀ c ∈ done, IsArranged config stack.boxes c
  boxes : done.map (fun c => stack.boxes.get? c.value.id) = inner.map some
  centre : ∀ b ∈ inner, b.x = x
  spaced : inner.IsChain fun above below => below.top = above.bottom + config.childSpacing
  last : stack.last = inner.getLast?
  other : ∀ id, id ∉ forestIds done → stack.boxes.get? id = start.get? id
  nodup : start.ids.Nodup → stack.boxes.ids.Nodup

/-- One more child is put under the stack. -/
theorem IsPile.push {config : Config Rat} {x : Rat} {start : Boxes Rat}
    {done : List (ComponentTree Rat)} {stack pushed : Stack Rat} {inner : List (Box Rat)}
    (hp : IsPile config x start done stack inner) {c : ComponentTree Rat} {box : Box Rat}
    (hc : IsPushed config x c stack pushed box) (hd : ∀ id ∈ treeIds c, id ∉ forestIds done) :
    IsPile config x start (done ++ [c]) pushed (inner ++ [box]) := by
  have hkept := hc.sized.other
  refine ⟨?_, ?_, ?_, ?_, ?_, ?_, fun hn => hc.sized.nodup (hp.nodup hn)⟩
  · intro c' hc'
    rcases List.mem_append.mp hc' with hc' | hc'
    · refine (hp.arranged c' hc').congr fun id hid => hkept id fun hid' => ?_
      exact hd id hid' (mem_forestIds.mpr ⟨c', hc', hid⟩)
    · rw [List.mem_singleton.mp hc']
      exact hc.sized.arranged
  · have hdone : ∀ c' ∈ done, pushed.boxes.get? c'.value.id = stack.boxes.get? c'.value.id := by
      intro c' hc'
      refine hkept _ fun hid => hd _ hid (mem_forestIds.mpr ⟨c', hc', id_mem_treeIds c'⟩)
    rw [List.map_append, List.map_append, List.map_congr_left hdone, hp.boxes, List.map_singleton,
      List.map_singleton, hc.sized.own]
  · intro b hb
    rcases List.mem_append.mp hb with hb | hb
    · exact hp.centre b hb
    · rw [List.mem_singleton.mp hb, hc.centre]
  · rw [List.isChain_append]
    refine ⟨hp.spaced, List.isChain_singleton _, fun above habove below hbelow => ?_⟩
    rw [← hp.last] at habove
    have hbelow' : box = below := Option.some.inj hbelow
    rw [← hbelow', hc.below above habove]
  · rw [hc.last, List.getLast?_concat]
  · intro id hid
    rw [forestIds_append, List.mem_append, not_or, forestIds_cons, forestIds_nil,
      List.append_nil] at hid
    rw [hkept id hid.2, hp.other id hid.1]

section

variable {d : Diagram Rat} {forest : List (ComponentTree Rat)} (h : FlatView d forest)
  (config : Config Rat)

include h

private theorem push_spec {x y : Rat} {size : String → Boxes Rat → Boxes Rat × Box Rat}
    {c : ComponentTree Rat} (hc : c ∈ Tree.forestSubtrees forest)
    (hsize : ∀ boxes, IsSized config c boxes (size c.value.id boxes).1 (size c.value.id boxes).2)
    (stack : Stack Rat) :
    ∃ box, IsPushed config x c stack (stack.push d config x y size c.value.id) box := by
  obtain ⟨harranged, hown, hother, hnodup⟩ := hsize stack.boxes
  rw [Stack.push_eq d config x y rfl]
  generalize size c.value.id stack.boxes = sized at harranged hown hother hnodup ⊢
  obtain ⟨boxes, box⟩ := sized
  have hcentre : ∀ above, stack.last = some above →
      stack.centre config y box = above.bottom + config.childSpacing + box.height / 2 :=
    fun above habove => Stack.centre_below habove box
  generalize stack.centre config y box = centre at hcentre ⊢
  have hids := ids_shift d c.value.id boxes (x - box.x) (centre - box.y)
  have hget := get?_shift h hc boxes (x - box.x) (centre - box.y)
  generalize shift d c.value.id boxes (x - box.x) (centre - box.y) = moved at hids hget ⊢
  have hmoved : MovedBy (x - box.x) (centre - box.y) boxes moved (treeIds c) := by
    intro id hid
    rw [hget, if_pos hid]
  have hbox : moved.get? c.value.id = some (box.translate (x - box.x) (centre - box.y)) := by
    rw [hmoved _ (id_mem_treeIds c), hown]
    rfl
  refine ⟨box.translate (x - box.x) (centre - box.y),
    ⟨harranged.move hmoved, hbox, fun id hid => ?_, fun hn => ?_⟩, ?_, fun above habove => ?_, hbox⟩
  · rw [hget, if_neg hid, hother id hid]
  · rw [hids]
    exact hnodup hn
  · rw [Box.translate_x]
    ring
  · rw [Box.translate_top, Box.top_eq, hcentre above habove]
    ring

/-- All children are stacked, each below the one before it. -/
private theorem pile_fold {x y : Rat} {size : String → Boxes Rat → Boxes Rat × Box Rat}
    {cs : List (ComponentTree Rat)} (hcs : ∀ c ∈ cs, c ∈ Tree.forestSubtrees forest)
    (hsize : ∀ c ∈ cs, ∀ boxes,
      IsSized config c boxes (size c.value.id boxes).1 (size c.value.id boxes).2)
    {start : Boxes Rat} {done : List (ComponentTree Rat)} {stack : Stack Rat}
    {inner : List (Box Rat)} (hp : IsPile config x start done stack inner)
    (hn : (forestIds (done ++ cs)).Nodup) :
    ∃ inner', IsPile config x start (done ++ cs)
      ((cs.map (·.value.id)).foldl (Stack.push d config x y size) stack) inner' := by
  induction cs generalizing done stack inner with
  | nil => exact ⟨inner, by rwa [List.append_nil]⟩
  | cons c cs ih =>
    obtain ⟨hc, hcs⟩ := List.forall_mem_cons.mp hcs
    obtain ⟨hsc, hscs⟩ := List.forall_mem_cons.mp hsize
    rw [List.append_cons] at hn ⊢
    have hfresh : ∀ id ∈ treeIds c, id ∉ forestIds done := by
      intro id hid hdone
      rw [forestIds_append, forestIds_append, forestIds_cons, forestIds_nil, List.append_nil] at hn
      have happart := (List.nodup_append.mp (List.nodup_append.mp hn).1).2.2
      exact happart id hdone id hid rfl
    obtain ⟨box, hpushed⟩ := push_spec h config (x := x) (y := y) hc hsc stack
    exact ih hcs hscs (hp.push hpushed hfresh) hn

omit h in
/-- A component is sized when its children are stacked. -/
private theorem sizeTo_eq (d : Diagram Rat) (x y : Rat) (depth : Nat) (id : String)
    (boxes : Boxes Rat) {done : List (ComponentTree Rat)} {inner : List (Box Rat)}
    (hids : (d.childrenOf id).map (·.id) = done.map (·.value.id))
    (hp : IsPile config x boxes done ((done.map (·.value.id)).foldl
      (Stack.push d config x y (sizeTo d config x y depth)) ⟨boxes, none⟩) inner) :
    ∃ box, HasRoom config box inner ∧ sizeTo d config x y (depth + 1) id boxes =
      (((done.map (·.value.id)).foldl
        (Stack.push d config x y (sizeTo d config x y depth)) ⟨boxes, none⟩).boxes.put id box,
        box) := by
  have hinner : (done.map (·.value.id)).filterMap ((done.map (·.value.id)).foldl
      (Stack.push d config x y (sizeTo d config x y depth)) ⟨boxes, none⟩).boxes.get? = inner := by
    have hmap := congrArg (List.filterMap fun b => b) hp.boxes
    simpa [List.filterMap_map, Function.comp_def] using hmap
  rw [sizeTo]
  simp only [hids, hinner]
  cases inner with
  | nil => exact ⟨_, .leaf rfl rfl, rfl⟩
  | cons first others =>
    exact ⟨enclose config first others,
      .container (isStacked_enclose config hp.centre hp.spaced) rfl, rfl⟩

/-- A component is sized with all that lies below it. -/
theorem isSized_sizeTo (x y : Rat) {depth : Nat} {t : ComponentTree Rat}
    (ht : t ∈ Tree.forestSubtrees forest) (hd : (treeIds t).length ≤ depth) (boxes : Boxes Rat) :
    IsSized config t boxes (sizeTo d config x y depth t.value.id boxes).1
      (sizeTo d config x y depth t.value.id boxes).2 := by
  induction depth generalizing t boxes with
  | zero => exact absurd hd (by simp [treeIds])
  | succ depth ih =>
    have hnodup := h.nodup ht
    rw [treeIds, List.nodup_cons] at hnodup
    have hmem := Tree.children_forestSubtrees ht
    have hsize : ∀ c ∈ t.children, ∀ bs, IsSized config c bs
        (sizeTo d config x y depth c.value.id bs).1 (sizeTo d config x y depth c.value.id bs).2 := by
      intro c hc bs
      have hle := (treeIds_sublist_forest (Tree.mem_forestSubtrees_of_mem hc)).length_le
      rw [treeIds, List.length_cons] at hd
      exact ih (hmem c hc) (by omega) bs
    have hstart : IsPile config x boxes [] ⟨boxes, none⟩ [] :=
      ⟨by simp, rfl, by simp, List.isChain_nil, rfl, fun _ _ => rfl, id⟩
    obtain ⟨inner, hp⟩ := pile_fold h config (y := y) hmem hsize hstart hnodup.2
    rw [List.nil_append] at hp
    obtain ⟨box, hroom, heq⟩ := sizeTo_eq config d x y depth t.value.id boxes (h.children t ht) hp
    rw [heq]
    generalize (t.children.map (·.value.id)).foldl
      (Stack.push d config x y (sizeTo d config x y depth)) ⟨boxes, none⟩ = stack at hp ⊢
    have hkept : ∀ c ∈ t.children, ∀ id ∈ treeIds c,
        (stack.boxes.put t.value.id box).get? id = stack.boxes.get? id := by
      intro c hc id hid
      rw [Boxes.get?_put, if_neg]
      rintro rfl
      exact hnodup.1 (treeIds_child_subset hc hid)
    refine ⟨fun s hs => ?_, by rw [Boxes.get?_put, if_pos rfl], fun id hid => ?_, fun hn => ?_⟩
    · rcases Tree.mem_subtrees.mp hs with rfl | hs
      · refine ⟨box, inner, by rw [Boxes.get?_put, if_pos rfl], ?_, hroom⟩
        rw [← hp.boxes]
        exact List.map_congr_left fun c hc => hkept c hc _ (id_mem_treeIds c)
      · obtain ⟨c, hc, hs⟩ := Tree.mem_forestSubtrees.mp hs
        exact (hp.arranged c hc).congr (hkept c hc) s hs
    · rw [treeIds, List.mem_cons, not_or] at hid
      rw [Boxes.get?_put, if_neg hid.1, hp.other id hid.2]
    · exact Boxes.nodup_put (hp.nodup hn) ..

/-! ## All roots -/

/-- Trees of different components are sized one after the other. -/
private theorem sizeAll_spec {roots : List (ComponentTree Rat)}
    (hr : ∀ t ∈ roots, t ∈ Tree.forestSubtrees forest) (hn : (forestIds roots).Nodup)
    (boxes : Boxes Rat) (after : Boxes Rat)
    (ha : after = (roots.map (·.value.id)).foldl
      (fun bs id => (sizeSubtree d config Scalar.zero Scalar.zero id bs).1) boxes) :
    (∀ t ∈ roots, IsArranged config after t) ∧
      (∀ id, id ∉ forestIds roots → after.get? id = boxes.get? id) ∧
      (boxes.ids.Nodup → after.ids.Nodup) := by
  induction roots generalizing boxes with
  | nil =>
    subst ha
    exact ⟨by simp, fun _ _ => rfl, id⟩
  | cons t ts ih =>
    obtain ⟨ht, hts⟩ := List.forall_mem_cons.mp hr
    rw [forestIds_cons, List.nodup_append] at hn
    have hsized := isSized_sizeTo h config Scalar.zero Scalar.zero ht
      ((h.length_le ht).trans (Nat.le_succ _)) boxes
    obtain ⟨harranged, hother, hnodup⟩ := ih hts hn.2.1 _ ha
    refine ⟨List.forall_mem_cons.mpr ⟨?_, harranged⟩, fun id hid => ?_, fun hb => ?_⟩
    · refine hsized.arranged.congr fun id hid => ?_
      exact hother id fun hid' => hn.2.2 id hid id hid' rfl
    · rw [forestIds_cons, List.mem_append, not_or] at hid
      rw [hother id hid.2]
      exact hsized.other id hid.1
    · exact hnodup (hsized.nodup hb)

/-- The boxes of all components, before they are placed. -/
theorem sizeRoots_eq :
    sizeRoots d config = (forest.map (·.value.id)).foldl
      (fun bs id => (sizeSubtree d config Scalar.zero Scalar.zero id bs).1) [] := by
  rw [sizeRoots, ← h.roots, List.foldl_map]

private theorem sizeRoots_spec : (∀ t ∈ forest, IsArranged config (sizeRoots d config) t) ∧
    (∀ id, id ∉ forestIds forest → (sizeRoots d config).get? id = none) ∧
    (sizeRoots d config).ids.Nodup := by
  have hmem : ∀ t ∈ forest, t ∈ Tree.forestSubtrees forest := fun t ht =>
    Tree.mem_forestSubtrees_of_mem ht
  obtain ⟨harranged, hother, hnodup⟩ :=
    sizeAll_spec h config hmem h.distinct [] _ (sizeRoots_eq h config)
  exact ⟨harranged, hother, hnodup List.nodup_nil⟩

/-- Sizing gives room to every component. -/
theorem isArranged_sizeRoots {t : ComponentTree Rat} (ht : t ∈ forest) :
    IsArranged config (sizeRoots d config) t :=
  (sizeRoots_spec h config).1 t ht

/-- Sizing gives one box to every component, and to nothing else. -/
theorem ids_sizeRoots : (sizeRoots d config).ids.Perm (forestIds forest) := by
  obtain ⟨harranged, hother, hnodup⟩ := sizeRoots_spec h config
  refine (List.perm_ext_iff_of_nodup hnodup h.distinct).mpr fun id => ?_
  rw [Boxes.mem_ids]
  constructor
  · rintro ⟨box, hbox⟩
    by_contra hid
    rw [hother id hid] at hbox
    cases hbox
  · intro hid
    obtain ⟨t, ht, hid⟩ := mem_forestIds.mp hid
    obtain ⟨s, hs, rfl⟩ := mem_treeIds.mp hid
    obtain ⟨box, -, hbox, -⟩ := harranged t ht s hs
    exact ⟨box, hbox⟩

end

end Layout

end ComponentDiagram
