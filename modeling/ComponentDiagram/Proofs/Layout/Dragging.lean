import ComponentDiagram.Layout.Drag
import ComponentDiagram.Print.Positions
import ComponentDiagram.Proofs.Layout.Containment

/-! Editing both views of a diagram: a new layout, which the nested view takes over, and drags. The
views are walked in two ways, one along the children that the entries name, one along the tree, and
stay in step. -/
namespace ComponentDiagram

variable {α : Type}

/-! ## Entries that are changed by their ids -/

theorem modifyLast_eq_map {β : Type} {key : β → String} {bs : List β} (h : (bs.map key).Nodup)
    (id : String) (change : β → β) : modifyLast (key · == id) change bs =
      bs.map fun b => if key b = id then change b else b := by
  induction bs with
  | nil => rfl
  | cons b rest ih =>
    obtain ⟨hb, hrest⟩ := List.nodup_cons.mp h
    rw [modifyLast, ih hrest, List.map_cons]
    by_cases hany : rest.any (key · == id) = true
    · obtain ⟨c, hc, hid⟩ := List.any_eq_true.mp hany
      have hne : key b ≠ id := by
        rintro rfl
        exact hb (beq_iff_eq.mp hid ▸ List.mem_map_of_mem hc)
      rw [if_pos hany, if_neg hne]
    · have hsame : rest.map (fun c => if key c = id then change c else c) = rest := by
        refine (List.map_congr_left fun c hc => if_neg fun hid => hany ?_).trans (List.map_id rest)
        exact List.any_eq_true.mpr ⟨c, hc, beq_iff_eq.mpr hid⟩
      rw [if_neg hany, hsame]
      by_cases hid : key b = id <;> simp [hid]

namespace Diagram

/-- A diagram in which every entry is changed. -/
def mapNodes (d : Diagram α) (f : FlatNode α → FlatNode α) : Diagram α :=
  { d with nodes := d.nodes.map f }

variable {d : Diagram α} {f g : FlatNode α → FlatNode α}

@[simp] theorem mapNodes_nodes : (d.mapNodes f).nodes = d.nodes.map f := rfl

theorem mapNodes_mapNodes : (d.mapNodes f).mapNodes g = d.mapNodes (g ∘ f) := by
  simp [mapNodes]

theorem mapNodes_congr (h : ∀ n ∈ d.nodes, f n = g n) : d.mapNodes f = d.mapNodes g := by
  rw [mapNodes, mapNodes, List.map_congr_left h]

theorem ids_mapNodes (hf : ∀ n, (f n).id = n.id) :
    (d.mapNodes f).nodes.map (·.id) = d.nodes.map (·.id) := by
  rw [mapNodes_nodes, List.map_map]
  exact List.map_congr_left fun n _ => hf n

theorem node?_mapNodes (hf : ∀ n, (f n).id = n.id) (id : String) :
    (d.mapNodes f).node? id = (d.node? id).map f := by
  have htest : ((·.id == id) ∘ f : FlatNode α → Bool) = (·.id == id) := by
    funext n
    simp [hf]
  rw [node?, node?, mapNodes_nodes, ← List.map_reverse, List.find?_map, htest]

theorem modifyNode_eq_mapNodes (h : (d.nodes.map (·.id)).Nodup) (id : String)
    (change : FlatNode α → FlatNode α) :
    d.modifyNode id change = d.mapNodes fun n => if n.id = id then change n else n := by
  rw [modifyNode, modifyLast_eq_map h]
  rfl

/-- Entries with different ids are changed once each. -/
theorem modifyAll_eq_mapNodes {change : FlatNode α → FlatNode α}
    (hchange : ∀ n, (change n).id = n.id) {ids : List String} (hids : ids.Nodup)
    (h : (d.nodes.map (·.id)).Nodup) :
    ids.foldl (fun d id => d.modifyNode id change) d =
      d.mapNodes fun n => if n.id ∈ ids then change n else n := by
  induction ids generalizing d with
  | nil => simp [mapNodes]
  | cons id ids ih =>
    obtain ⟨hid, hids⟩ := List.nodup_cons.mp hids
    have hone : ∀ n : FlatNode α, (if n.id = id then change n else n).id = n.id := by
      intro n
      split
      · exact hchange n
      · rfl
    rw [List.foldl_cons, modifyNode_eq_mapNodes h,
      ih hids ((ids_mapNodes hone).symm ▸ h), mapNodes_mapNodes]
    refine mapNodes_congr fun n _ => ?_
    by_cases hn : n.id = id
    · simp [hn, hchange, hid]
    · simp [hn]

section

variable (hf : ∀ n, (f n).id = n.id ∧ (f n).parent = n.parent ∧ (f n).childIds = n.childIds)
include hf

theorem roots_mapNodes : (d.mapNodes f).roots = d.roots.map f := by
  have htest : ((·.parent.isNone) ∘ f : FlatNode α → Bool) = (·.parent.isNone) := by
    funext n
    simp [hf]
  rw [roots, roots, mapNodes_nodes, List.filter_map, htest]

theorem childrenOf_mapNodes (id : String) :
    (d.mapNodes f).childrenOf id = (d.childrenOf id).map f := by
  have hid (n : FlatNode α) := (hf n).1
  rw [childrenOf, childrenOf, node?_mapNodes hid]
  cases d.node? id with
  | none => rfl
  | some n =>
    rw [Option.map_some, List.map_filterMap]
    simp only [(hf n).2.2, node?_mapNodes hid]

end

end Diagram

/-- Which forest a diagram lists is a matter of ids, parents and children. -/
theorem FlatView.mapNodes {d : Diagram α} {forest : List (ComponentTree α)}
    {f : FlatNode α → FlatNode α} (h : FlatView d forest)
    (hf : ∀ n, (f n).id = n.id ∧ (f n).parent = n.parent ∧ (f n).childIds = n.childIds) :
    FlatView (d.mapNodes f) forest := by
  have hid (n : FlatNode α) := (hf n).1
  refine ⟨h.distinct, (Diagram.ids_mapNodes hid).trans h.ids, ?_, fun t ht => ?_⟩
  · rw [Diagram.roots_mapNodes hf, List.map_map, ← h.roots]
    exact List.map_congr_left fun n _ => hid n
  · rw [Diagram.childrenOf_mapNodes hf, List.map_map, ← h.children t ht]
    exact List.map_congr_left fun n _ => hid n

/-! ## Components that are changed with all that lies below them -/

/-- With different ids, a change that starts at one component reaches those below it. -/
theorem forestModifyFirst?_map_below {f : Component α → Component α} :
    {ts : List (ComponentTree α)} → {t : ComponentTree α} → (forestIds ts).Nodup →
    t ∈ Tree.forestSubtrees ts →
    Tree.forestModifyFirst? (·.id == t.value.id) (Tree.map f) ts =
      some (Tree.forestMap (fun c => if c.id ∈ treeIds t then f c else c) ts)
  | [], _, _, ht => by cases ht
  | .node c us :: ts, t, hd, ht => by
    -- What lies beside the component, or around it, has other ids.
    have hother {ts : List (ComponentTree α)} (h : ∀ id ∈ forestIds ts, id ∉ treeIds t) :
        Tree.forestMap (fun c => if c.id ∈ treeIds t then f c else c) ts = ts := by
      refine (Tree.forestMap_congr_left fun c hc => if_neg ?_).trans (Tree.forestMap_id ts)
      exact h c.id (List.mem_map_of_mem hc)
    rw [forestIds_node, List.nodup_cons, List.mem_append, not_or] at hd
    obtain ⟨⟨hcu, hct⟩, hd⟩ := hd
    obtain ⟨hdu, hdt, hdisjoint⟩ := List.nodup_append'.mp hd
    rw [Tree.forestSubtrees, Tree.subtrees, List.cons_append, List.mem_cons, List.mem_append] at ht
    rw [Tree.forestModifyFirst?, Tree.modifyFirst?, Tree.forestMap, Tree.map, Tree.map]
    rcases ht with rfl | ht | ht
    · have hall : Tree.forestMap (fun b => if b.id ∈ treeIds (.node c us) then f b else b) us =
          Tree.forestMap f us :=
        Tree.forestMap_congr_left fun b hb =>
          if_pos (List.mem_cons_of_mem _ (List.mem_map_of_mem hb))
      have hbeside : ∀ id ∈ forestIds ts, id ∉ treeIds (.node c us) := by
        intro id hid hmem
        rcases List.mem_cons.mp hmem with rfl | hmem
        · exact hct hid
        · exact hdisjoint hmem hid
      rw [hall, hother hbeside]
      simp [Tree.value, treeIds]
    · have hsub := (treeIds_sublist_forest ht).subset
      have hmem := hsub (List.mem_cons_self ..)
      have hne : (c.id == t.value.id) = false := beq_eq_false_iff_ne.mpr fun he => hcu (he ▸ hmem)
      rw [hne, forestModifyFirst?_map_below hdu ht,
        hother fun id hid hmem => hdisjoint (hsub hmem) hid, if_neg fun hmem => hcu (hsub hmem)]
      rfl
    · have hsub := (treeIds_sublist_forest ht).subset
      have hmem := hsub (List.mem_cons_self ..)
      have hne : (c.id == t.value.id) = false := beq_eq_false_iff_ne.mpr fun he => hct (he ▸ hmem)
      have hinside : ∀ b ∈ Tree.values us, (b.id == t.value.id) = false := fun b hb =>
        beq_eq_false_iff_ne.mpr fun he => hdisjoint (List.mem_map_of_mem hb) (he ▸ hmem)
      rw [hne, Tree.forestModifyFirst?_none hinside, forestModifyFirst?_map_below hdt ht,
        hother fun id hid hmem => hdisjoint hid (hsub hmem), if_neg fun hmem => hct (hsub hmem)]
      rfl

variable [Scalar α]

/-- An entry after a drag of a component: moved if it is dragged along, and pinned if it is the one
that was dragged. -/
def FlatNode.dragged (t : ComponentTree α) (dx dy : α) (n : FlatNode α) : FlatNode α :=
  if n.id ∈ treeIds t then
    { n with x := n.x + dx, y := n.y + dy, pinned := n.pinned || n.id == t.value.id }
  else n

/-- A component after a drag: moved if it is dragged along. -/
def Component.dragged (t : ComponentTree α) (dx dy : α) (c : Component α) : Component α :=
  if c.id ∈ treeIds t then { c with x := c.x.map (· + dx), y := c.y.map (· + dy) } else c

theorem FlatNode.dragged_links (t : ComponentTree α) (dx dy : α) (n : FlatNode α) :
    (n.dragged t dx dy).id = n.id ∧ (n.dragged t dx dy).parent = n.parent ∧
      (n.dragged t dx dy).childIds = n.childIds := by
  rw [dragged]
  split <;> exact ⟨rfl, rfl, rfl⟩

theorem Component.dragged_id (t : ComponentTree α) (dx dy : α) (c : Component α) :
    (c.dragged t dx dy).id = c.id := by
  rw [dragged]
  split <;> rfl

namespace Layout

omit [Scalar α] in
/-- A layout keeps the links of the entries. -/
theorem flatView_apply {d : Diagram α} {forest : List (ComponentTree α)} (h : FlatView d forest)
    (boxes : Boxes α) : FlatView (apply d boxes) forest := by
  refine h.mapNodes fun n => ?_
  split <;> exact ⟨rfl, rfl, rfl⟩

theorem flatView_layout {d d' : Diagram α} {forest : List (ComponentTree α)} (h : FlatView d forest)
    {config : Config α} (hlaid : layout d config = some d') : FlatView d' forest := by
  obtain ⟨boxes, -, rfl⟩ := Option.map_eq_some_iff.mp hlaid
  exact flatView_apply h boxes

/-! ## Views in step -/

/-- Both views have the same components, in the same tree and at the same places. -/
structure Views.InStep (v : Views α) : Prop where
  listed : FlatView v.diagram v.document.roots
  together : ∀ c ∈ v.document.components,
    ∃ n, v.diagram.node? c.id = some n ∧ c.x = some n.x ∧ c.y = some n.y

/-- Both views with a component and all that lies below it moved by one vector. -/
def Views.dragged (v : Views α) (t : ComponentTree α) (dx dy : α) : Views α :=
  { diagram := v.diagram.mapNodes (FlatNode.dragged t dx dy)
    document := { v.document with
      roots := Tree.forestMap (Component.dragged t dx dy) v.document.roots } }

/-- Both views after a new layout, if it ends, which the nested view takes over. -/
def Views.relaid (v : Views α) (config : Config α) : Option (Views α) :=
  (layout v.diagram config).map fun d =>
    { diagram := d, document := Print.syncPositions v.document d }

namespace Views

variable {v : Views α}

omit [Scalar α] in
theorem exists_sync (doc : Document α) (d : Diagram α) : ∃ f : Component α → Component α,
    (Print.syncPositions doc d).roots = Tree.forestMap f doc.roots ∧ (∀ c, (f c).id = c.id) ∧
      ∀ c n, d.node? c.id = some n → (f c).x = some n.x ∧ (f c).y = some n.y := by
  refine ⟨_, rfl, fun c => ?_, fun c n hn => ?_⟩
  · split <;> rfl
  · simp only [hn, and_self]

theorem ids_relaid {v' : Views α} {config : Config α} (h : v.relaid config = some v') :
    forestIds v'.document.roots = forestIds v.document.roots := by
  obtain ⟨d, -, rfl⟩ := Option.map_eq_some_iff.mp h
  obtain ⟨f, hroots, hid, -⟩ := exists_sync v.document d
  rw [hroots, forestIds_forestMap hid]

/-- A layout brings both views in step. -/
theorem relaid_inStep (h : FlatView v.diagram v.document.roots) {v' : Views α} {config : Config α}
    (hv : v.relaid config = some v') : v'.InStep := by
  obtain ⟨d, hlaid, rfl⟩ := Option.map_eq_some_iff.mp hv
  obtain ⟨f, hroots, hid, hplaced⟩ := exists_sync v.document d
  have hview := flatView_layout h hlaid
  refine ⟨?_, fun c hc => ?_⟩
  · rw [hroots]
    exact (flatView_forestMap hid).mpr hview
  · rw [Document.components, hroots, Tree.values_forestMap] at hc
    obtain ⟨b, hb, rfl⟩ := List.mem_map.mp hc
    obtain ⟨n, hn⟩ := hview.exists_entry (List.mem_map_of_mem hb)
    exact ⟨n, (hid b).symm ▸ hn, hplaced b n hn⟩

theorem InStep.dragged (h : v.InStep) (t : ComponentTree α) (dx dy : α) :
    (v.dragged t dx dy).InStep := by
  refine ⟨(flatView_forestMap (Component.dragged_id t dx dy)).mpr
    (h.listed.mapNodes (FlatNode.dragged_links t dx dy)), fun c hc => ?_⟩
  rw [Views.dragged, Document.components, Tree.values_forestMap] at hc
  obtain ⟨b, hb, rfl⟩ := List.mem_map.mp hc
  obtain ⟨n, hn, hx, hy⟩ := h.together b hb
  refine ⟨n.dragged t dx dy, ?_, ?_⟩
  · rw [Component.dragged_id, Views.dragged,
      Diagram.node?_mapNodes fun n => (FlatNode.dragged_links t dx dy n).1, hn, Option.map_some]
  · rw [Component.dragged, FlatNode.dragged, id_of_node? hn]
    split
    · exact ⟨congrArg (Option.map (· + dx)) hx, congrArg (Option.map (· + dy)) hy⟩
    · exact ⟨hx, hy⟩

end Views

/-! ## Drags -/

theorem drag_run (v : Views α) (id : String) (dx dy : α) : (drag id dx dy).run v =
    if (v.diagram.node? id).isNone then .error ⟨id⟩ v
    else
      let dragged := (v.diagram.translate id dx dy).modifyNode id fun n => { n with pinned := true }
      .ok () ⟨dragged, dragTree v.document dragged id dx dy⟩ := by
  rw [drag, EStateM.run_bind]
  by_cases h : (v.diagram.node? id).isNone = true
  · simp [h]
  · simp [h]

/-- A drag of an unknown id changes nothing. -/
theorem drag_missing {v : Views α} (h : FlatView v.diagram v.document.roots) {id : String}
    (hid : id ∉ forestIds v.document.roots) (dx dy : α) :
    (drag id dx dy).run v = .error ⟨id⟩ v := by
  rw [drag_run, node?_none (h.ids ▸ hid)]
  rfl

/-- In the flat view a component moves with all that lies below it, and is pinned. -/
theorem drag_diagram {d : Diagram α} {forest : List (ComponentTree α)} (h : FlatView d forest)
    {t : ComponentTree α} (ht : t ∈ Tree.forestSubtrees forest) (dx dy : α) :
    (d.translate t.value.id dx dy).modifyNode t.value.id (fun n => { n with pinned := true }) =
      d.mapNodes (FlatNode.dragged t dx dy) := by
  let move (n : FlatNode α) : FlatNode α := { n with x := n.x + dx, y := n.y + dy }
  have hmove : ∀ n, (move n).id = n.id := fun _ => rfl
  have hdistinct : (d.nodes.map (·.id)).Nodup := h.ids ▸ h.distinct
  obtain ⟨n, hn⟩ := h.exists_entry (id_mem_forestIds ht)
  have hids : (n :: d.descendants t.value.id).map (·.id) = treeIds t := by
    rw [List.map_cons, id_of_node? hn, h.descendants_ids ht]
    rfl
  have hall : d.translate t.value.id dx dy =
      d.mapNodes fun n => if n.id ∈ treeIds t then move n else n := by
    rw [← Diagram.modifyAll_eq_mapNodes hmove (h.nodup ht) hdistinct, ← hids, List.foldl_map,
      Diagram.translate, hn]
  have hkept : ∀ n : FlatNode α, (if n.id ∈ treeIds t then move n else n).id = n.id := by
    intro n
    split <;> rfl
  rw [hall, Diagram.modifyNode_eq_mapNodes ((Diagram.ids_mapNodes hkept).symm ▸ hdistinct),
    Diagram.mapNodes_mapNodes]
  refine Diagram.mapNodes_congr fun n _ => ?_
  rw [Function.comp_apply, hkept, FlatNode.dragged]
  by_cases hid : n.id = t.value.id
  · simp [hid, treeIds, move]
  · simp [hid, beq_eq_false_iff_ne.mpr hid, move]

/-- In the nested view a component moves with all that lies below it. -/
theorem drag_document {v : Views α} (h : v.InStep) {t : ComponentTree α}
    (ht : t ∈ Tree.forestSubtrees v.document.roots) (d : Diagram α) (dx dy : α) :
    dragTree v.document d t.value.id dx dy = (v.dragged t dx dy).document := by
  rw [dragTree, Document.modify, forestModifyFirst?_map_below h.listed.distinct ht,
    Option.getD_some, Views.dragged]
  congr 1
  refine Tree.forestMap_congr_left fun c hc => ?_
  obtain ⟨n, -, hx, hy⟩ := h.together c hc
  rw [Component.dragged]
  split
  · simp [dragComponent, hx, hy]
  · rfl

/-- A drag moves a component with all that lies below it in both views. -/
theorem drag_present {v : Views α} (h : v.InStep) {t : ComponentTree α}
    (ht : t ∈ Tree.forestSubtrees v.document.roots) (dx dy : α) :
    (drag t.value.id dx dy).run v = .ok () (v.dragged t dx dy) := by
  obtain ⟨n, hn⟩ := h.listed.exists_entry (id_mem_forestIds ht)
  rw [drag_run, hn]
  simp only [drag_diagram h.listed ht, drag_document h ht]
  rfl

/-! ## Runs -/

/-- A step of a session: a new layout, or a drag. -/
inductive Step (α : Type)
  | relayout (config : Config α)
  | drag (id : String) (dx dy : α)

/-- The views after a step: none if its layout does not end. A drag that fails leaves what it has
changed. -/
def Step.run (v : Views α) : Step α → Option (Views α)
  | .relayout config => v.relaid config
  | .drag id dx dy =>
    match (Layout.drag id dx dy).run v with
    | .ok _ edited => some edited
    | .error _ edited => some edited

/-- The views after some steps. A drag that fails does not end the session. -/
def Views.after (v : Views α) (steps : List (Step α)) : Option (Views α) := steps.foldlM Step.run v

/-- A step keeps the views in step, and the ids as they are. -/
theorem inStep_step {v v' : Views α} (h : v.InStep) {step : Step α} (hv : step.run v = some v') :
    v'.InStep ∧ forestIds v'.document.roots = forestIds v.document.roots := by
  cases step with
  | relayout config => exact ⟨Views.relaid_inStep h.listed hv, Views.ids_relaid hv⟩
  | drag id dx dy =>
    rw [Step.run] at hv
    by_cases hid : id ∈ forestIds v.document.roots
    · obtain ⟨t, ht, rfl⟩ := mem_forestIds_iff.mp hid
      rw [drag_present h ht] at hv
      cases hv
      exact ⟨h.dragged t dx dy, forestIds_forestMap (Component.dragged_id t dx dy) _⟩
    · rw [drag_missing h.listed hid] at hv
      cases hv
      exact ⟨h, rfl⟩

/-- So does a run. -/
theorem inStep_after {v v' : Views α} (h : v.InStep) {steps : List (Step α)}
    (hv : v.after steps = some v') :
    v'.InStep ∧ forestIds v'.document.roots = forestIds v.document.roots := by
  induction steps generalizing v with
  | nil =>
    cases hv
    exact ⟨h, rfl⟩
  | cons step steps ih =>
    obtain ⟨w, hw, hv⟩ := Option.bind_eq_some_iff.mp hv
    obtain ⟨hstep, hids⟩ := inStep_step h hw
    obtain ⟨hsteps, hrest⟩ := ih hstep hv
    exact ⟨hsteps, hrest.trans hids⟩

theorem Step.run_eq_none {v : Views α} {step : Step α} : step.run v = none ↔
    ∃ config, step = .relayout config ∧ compute v.diagram config = none := by
  cases step with
  | relayout config => simp [Step.run, Views.relaid, layout]
  | drag id dx dy =>
    rw [Step.run]
    split <;> simp

/-- A session runs on forever exactly if a layout in it does. -/
theorem after_eq_none {v : Views α} {steps : List (Step α)} : v.after steps = none ↔
    ∃ before config later w, steps = before ++ .relayout config :: later ∧
      v.after before = some w ∧ compute w.diagram config = none := by
  rw [Views.after, foldlM_eq_none]
  constructor
  · rintro ⟨before, step, later, w, rfl, hw, hstep⟩
    obtain ⟨config, rfl, hnone⟩ := Step.run_eq_none.mp hstep
    exact ⟨before, config, later, w, rfl, hw, hnone⟩
  · rintro ⟨before, config, later, w, rfl, hw, hnone⟩
    exact ⟨before, _, later, w, rfl, hw, Step.run_eq_none.mpr ⟨config, rfl, hnone⟩⟩

/-- In exact arithmetic a session ends. -/
theorem exists_after (v : Views Rat) (steps : List (Step Rat))
    (h : ∀ config, .relayout config ∈ steps → 0 ≤ config.childSpacing) :
    ∃ v', v.after steps = some v' := by
  rw [← Option.ne_none_iff_exists', Ne, after_eq_none]
  rintro ⟨before, config, later, w, rfl, -, hnone⟩
  obtain ⟨boxes, hboxes⟩ := exists_compute (h config (by simp)) w.diagram
  cases hnone.symm.trans hboxes

/-- The views of a document with different ids, laid out and then edited in any number of steps, are
in step after each of them, unless one of the layouts does not end. A drag moves the component and
all that lies below it in both views, pins its entry, and changes nothing else. A drag of an unknown
id fails and changes nothing. -/
theorem session_inStep (doc : Document α) (h : (doc.components.map (·.id)).Nodup)
    (config : Config α) (steps : List (Step α)) :
    let start : Views α := ⟨Build.diagram doc, doc⟩
    (start.after (.relayout config :: steps) = none ↔ ∃ before settings later w,
      .relayout config :: steps = before ++ .relayout settings :: later ∧
        start.after before = some w ∧ compute w.diagram settings = none) ∧
    ∀ v, start.after (.relayout config :: steps) = some v →
      v.InStep ∧ v.document.components.map (·.id) = doc.components.map (·.id) ∧
      (∀ t ∈ Tree.forestSubtrees v.document.roots, ∀ dx dy,
        (v.diagram.descendants t.value.id).map (·.id) = forestIds t.children ∧
        (drag t.value.id dx dy).run v = .ok () (v.dragged t dx dy)) ∧
      ∀ id ∉ doc.components.map (·.id), ∀ dx dy, (drag id dx dy).run v = .error ⟨id⟩ v := by
  intro start
  refine ⟨after_eq_none, fun v hafter => ?_⟩
  obtain ⟨first, hfirst, hafter⟩ := Option.bind_eq_some_iff.mp hafter
  have hstart : first.InStep := Views.relaid_inStep (flatView_diagram h) hfirst
  obtain ⟨hv, hids⟩ := inStep_after hstart hafter
  have hids : forestIds v.document.roots = forestIds doc.roots :=
    hids.trans (Views.ids_relaid hfirst)
  refine ⟨hv, hids, fun t ht dx dy => ?_, fun id hid dx dy => ?_⟩
  · exact ⟨hv.listed.descendants_ids ht, drag_present hv ht dx dy⟩
  · exact drag_missing hv.listed (hids ▸ hid) dx dy

/-- The inner component is dragged, then the outer one with it, and the layout that follows undoes
the first drag only. -/
theorem session_inStep_nestedTrio : (nestedTrio.components.map (·.id)).Nodup ∧
    ∃ v, Views.after ⟨Build.diagram nestedTrio, nestedTrio⟩ [.relayout .standard,
      .drag "b" 10 20, .drag "e" 1 1, .drag "a" (-3) 4, .relayout .standard, .drag "a" 1 1] =
        some v ∧
      v.InStep ∧ (drag "e" 1 1).run v = .error ⟨"e"⟩ v := by
  have hdistinct : (nestedTrio.components.map (·.id)).Nodup := by decide
  obtain ⟨v, hafter⟩ := exists_after ⟨Build.diagram nestedTrio, nestedTrio⟩
    [.relayout .standard, .drag "b" 10 20, .drag "e" 1 1, .drag "a" (-3) 4, .relayout .standard,
      .drag "a" 1 1] (by simpa using standard_spacing)
  obtain ⟨hv, -, -, hmissing⟩ := (session_inStep nestedTrio hdistinct .standard _).2 v hafter
  exact ⟨hdistinct, v, hafter, hv, hmissing "e" (by decide) 1 1⟩

end Layout

end ComponentDiagram
