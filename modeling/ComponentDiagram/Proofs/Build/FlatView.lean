import ComponentDiagram.Build.Route
import ComponentDiagram.Proofs.Model.Forest

/-! The flat view of a document whose components have different ids: an entry is found by its id,
and leads to its children and to all that lies below it. -/
namespace ComponentDiagram

namespace Tree

variable {β : Type}

theorem self_mem_subtrees (t : Tree β) : t ∈ subtrees t := by
  cases t
  simp [subtrees]

theorem mem_forestSubtrees {ts : List (Tree β)} {s : Tree β} :
    s ∈ forestSubtrees ts ↔ ∃ t ∈ ts, s ∈ subtrees t := by
  induction ts with
  | nil => simp [forestSubtrees]
  | cons t ts ih => simp [forestSubtrees, ih]

theorem mem_subtrees {t s : Tree β} :
    s ∈ subtrees t ↔ s = t ∨ s ∈ forestSubtrees t.children := by
  cases t
  simp [subtrees, children]

theorem mem_forestSubtrees_of_mem {ts : List (Tree β)} {t : Tree β} (h : t ∈ ts) :
    t ∈ forestSubtrees ts :=
  mem_forestSubtrees.mpr ⟨t, h, self_mem_subtrees t⟩

mutual

theorem children_subtrees {t s : Tree β} (h : s ∈ subtrees t) :
    ∀ c ∈ s.children, c ∈ subtrees t := by
  cases t with
  | node v ts =>
    intro c hc
    rcases mem_subtrees.mp h with rfl | h
    · exact mem_subtrees.mpr (.inr (mem_forestSubtrees_of_mem hc))
    · exact mem_subtrees.mpr (.inr (children_forestSubtrees h c hc))

theorem children_forestSubtrees {ts : List (Tree β)} {s : Tree β} (h : s ∈ forestSubtrees ts) :
    ∀ c ∈ s.children, c ∈ forestSubtrees ts := by
  cases ts with
  | nil => cases h
  | cons t ts =>
    intro c hc
    rw [forestSubtrees, List.mem_append] at h ⊢
    exact h.imp (fun h => children_subtrees h c hc) fun h => children_forestSubtrees h c hc

end

/-- What lies below a tree of a forest lies in the forest. -/
theorem forestSubtrees_below : {ts : List (Tree β)} → {t : Tree β} →
    t ∈ forestSubtrees ts → ∀ s ∈ forestSubtrees t.children, s ∈ forestSubtrees ts
  | [], _, ht => by cases ht
  | .node v us :: ts, t, ht => by
    intro s hs
    rw [forestSubtrees, subtrees, List.cons_append, List.mem_cons, List.mem_append] at ht ⊢
    rcases ht with rfl | ht | ht
    · exact .inr (.inl hs)
    · exact .inr (.inl (forestSubtrees_below ht s hs))
    · exact .inr (.inr (forestSubtrees_below ht s hs))

end Tree

variable {α : Type}

/-! ## Ids -/

/-- The ids of trees and of all that lies below them, in pre-order. -/
def forestIds (ts : List (ComponentTree α)) : List String := (Tree.values ts).map (·.id)

def treeIds (t : ComponentTree α) : List String := t.value.id :: forestIds t.children

@[simp] theorem forestIds_nil : forestIds ([] : List (ComponentTree α)) = [] := rfl

@[simp] theorem forestIds_cons (t : ComponentTree α) (ts : List (ComponentTree α)) :
    forestIds (t :: ts) = treeIds t ++ forestIds ts := by
  cases t
  rw [forestIds, Tree.values_cons, Tree.values_node]
  simp [treeIds, forestIds, Tree.value, Tree.children]

theorem forestIds_node (c : Component α) (children ts : List (ComponentTree α)) :
    forestIds (.node c children :: ts) = c.id :: (forestIds children ++ forestIds ts) := by
  rw [forestIds_cons]
  rfl

theorem forestIds_append (ts us : List (ComponentTree α)) :
    forestIds (ts ++ us) = forestIds ts ++ forestIds us := by
  rw [forestIds, Tree.values_append, List.map_append]
  rfl

theorem forestIds_forestMap {f : Component α → Component α} (hf : ∀ c, (f c).id = c.id)
    (ts : List (ComponentTree α)) : forestIds (Tree.forestMap f ts) = forestIds ts := by
  rw [forestIds, Tree.values_forestMap, List.map_map]
  exact List.map_congr_left fun c _ => hf c

theorem rootIds_sublist (ts : List (ComponentTree α)) :
    (ts.map (·.value.id)).Sublist (forestIds ts) := by
  induction ts with
  | nil => exact .slnil
  | cons t ts ih =>
    rw [forestIds_cons]
    exact ((List.nil_sublist (forestIds t.children)).append ih).cons_cons _

mutual

theorem treeIds_sublist {t s : ComponentTree α} (h : s ∈ Tree.subtrees t) :
    (treeIds s).Sublist (treeIds t) := by
  cases t with
  | node c children =>
    rcases Tree.mem_subtrees.mp h with rfl | h
    · exact List.Sublist.refl _
    · exact (treeIds_sublist_forest h).cons _

/-- A tree of a forest has some of its ids. -/
theorem treeIds_sublist_forest {ts : List (ComponentTree α)} {s : ComponentTree α}
    (h : s ∈ Tree.forestSubtrees ts) : (treeIds s).Sublist (forestIds ts) := by
  cases ts with
  | nil => cases h
  | cons t ts =>
    rw [Tree.forestSubtrees, List.mem_append] at h
    rw [forestIds_cons]
    rcases h with h | h
    · exact (treeIds_sublist h).trans (List.sublist_append_left ..)
    · exact (treeIds_sublist_forest h).trans (List.sublist_append_right ..)

end

theorem mem_forestIds {ts : List (ComponentTree α)} {id : String} :
    id ∈ forestIds ts ↔ ∃ t ∈ ts, id ∈ treeIds t := by
  induction ts with
  | nil => simp
  | cons t ts ih => simp [ih]

theorem mem_forestIds_iff {ts : List (ComponentTree α)} {id : String} :
    id ∈ forestIds ts ↔ ∃ t ∈ Tree.forestSubtrees ts, t.value.id = id := by
  simp [forestIds, Tree.values]

theorem id_mem_forestIds {ts : List (ComponentTree α)} {t : ComponentTree α}
    (h : t ∈ Tree.forestSubtrees ts) : t.value.id ∈ forestIds ts :=
  mem_forestIds_iff.mpr ⟨t, h, rfl⟩

/-- What holds of a tree if it holds of its children, holds of all trees. -/
theorem subtree_induction {P : ComponentTree α → Prop}
    (h : ∀ t, (∀ c ∈ t.children, P c) → P t) (t : ComponentTree α) : P t := by
  induction hn : (treeIds t).length using Nat.strong_induction_on generalizing t with
  | _ n ih =>
    refine h t fun c hc => ih _ ?_ c rfl
    have hsub := treeIds_sublist_forest (Tree.mem_forestSubtrees_of_mem hc)
    rw [← hn, treeIds, List.length_cons]
    exact Nat.lt_succ_of_le hsub.length_le

/-! ## The flat view -/

/-- The diagram lists the components of the forest. -/
structure FlatView (d : Diagram α) (forest : List (ComponentTree α)) : Prop where
  distinct : (forestIds forest).Nodup
  ids : d.nodes.map (·.id) = forestIds forest
  roots : d.roots.map (·.id) = forest.map (·.value.id)
  children : ∀ t ∈ Tree.forestSubtrees forest,
    (d.childrenOf t.value.id).map (·.id) = t.children.map (·.value.id)

namespace Build

variable [Scalar α]

mutual

private theorem flattenTree_ids (parent : Option String) (depth : Nat) : (t : ComponentTree α) →
    (flattenTree parent depth t).map (·.id) = treeIds t
  | .node c children => by
    rw [flattenTree, List.map_cons, flattenForest_ids]
    rfl

theorem flattenForest_ids (parent : Option String) (depth : Nat) :
    (ts : List (ComponentTree α)) → (flattenForest parent depth ts).map (·.id) = forestIds ts
  | [] => rfl
  | t :: ts => by
    rw [flattenForest, List.map_append, flattenTree_ids, flattenForest_ids, forestIds_cons]

end

mutual

private theorem entry_tree {t s : ComponentTree α} (h : s ∈ Tree.subtrees t)
    (parent : Option String) (depth : Nat) : ∃ n ∈ flattenTree parent depth t,
      n.id = s.value.id ∧ n.childIds = s.children.map (·.value.id) := by
  cases t with
  | node c children =>
    rw [flattenTree]
    rcases Tree.mem_subtrees.mp h with rfl | h
    · exact ⟨_, List.mem_cons_self .., rfl, rfl⟩
    · obtain ⟨n, hn, he⟩ := entry_forest h (some c.id) (depth + 1)
      exact ⟨n, List.mem_cons_of_mem _ hn, he⟩

/-- Each component has an entry that names its children. -/
theorem entry_forest {ts : List (ComponentTree α)} {s : ComponentTree α}
    (h : s ∈ Tree.forestSubtrees ts) (parent : Option String) (depth : Nat) :
    ∃ n ∈ flattenForest parent depth ts,
      n.id = s.value.id ∧ n.childIds = s.children.map (·.value.id) := by
  cases ts with
  | nil => cases h
  | cons t ts =>
    rw [Tree.forestSubtrees, List.mem_append] at h
    rw [flattenForest]
    rcases h with h | h
    · obtain ⟨n, hn, he⟩ := entry_tree h parent depth
      exact ⟨n, List.mem_append_left _ hn, he⟩
    · obtain ⟨n, hn, he⟩ := entry_forest h parent depth
      exact ⟨n, List.mem_append_right _ hn, he⟩

end

mutual

private theorem tree_no_root (p : String) (depth : Nat) : (t : ComponentTree α) →
    (flattenTree (some p) depth t).filter (·.parent.isNone) = []
  | .node c children => by
    rw [flattenTree, List.filter_cons_of_neg (by simp [flatNode]), forest_no_root]

private theorem forest_no_root (p : String) (depth : Nat) : (ts : List (ComponentTree α)) →
    (flattenForest (some p) depth ts).filter (·.parent.isNone) = []
  | [] => rfl
  | t :: ts => by
    rw [flattenForest, List.filter_append, tree_no_root, forest_no_root, List.append_nil]

end

/-- The roots are the entries without a parent. -/
theorem flattenForest_roots (ts : List (ComponentTree α)) (depth : Nat) :
    (flattenForest none depth ts).filter (·.parent.isNone) =
      ts.map fun t => flatNode none depth t.value t.children := by
  induction ts with
  | nil => rfl
  | cons t ts ih =>
    obtain ⟨c, children⟩ := t
    rw [flattenForest, List.filter_append, ih, flattenTree,
      List.filter_cons_of_pos (by simp [flatNode]), forest_no_root]
    rfl

theorem roots_diagram (doc : Document α) : (diagram doc).roots =
    doc.roots.map fun t => flatNode none 0 t.value t.children :=
  flattenForest_roots doc.roots 0

theorem ids_diagram (doc : Document α) : (diagram doc).nodes.map (·.id) = forestIds doc.roots :=
  flattenForest_ids none 0 doc.roots

theorem rootIds_diagram (doc : Document α) :
    (diagram doc).roots.map (·.id) = doc.roots.map (·.value.id) := by
  rw [roots_diagram, List.map_map]
  rfl

end Build

/-- A node stands for an id of the list. -/
theorem exists_node {d : Diagram α} {id : String} (h : id ∈ d.nodes.map (·.id)) :
    ∃ n ∈ d.nodes, d.node? id = some n := by
  obtain ⟨n, hn, hid⟩ := List.mem_map.mp h
  have hsome : (d.nodes.reverse.find? (·.id == id)).isSome = true :=
    List.find?_isSome.mpr ⟨n, List.mem_reverse.mpr hn, beq_iff_eq.mpr hid⟩
  obtain ⟨m, hm⟩ := Option.isSome_iff_exists.mp hsome
  exact ⟨m, List.mem_reverse.mp (List.mem_of_find?_eq_some hm), hm⟩

theorem node?_none {d : Diagram α} {id : String} (h : id ∉ d.nodes.map (·.id)) :
    d.node? id = none := by
  refine List.find?_eq_none.mpr fun n hn hid => h ?_
  rw [← beq_iff_eq.mp hid]
  exact List.mem_map_of_mem (List.mem_reverse.mp hn)

theorem id_of_node? {d : Diagram α} {id : String} {n : FlatNode α} (h : d.node? id = some n) :
    n.id = id := by
  have hid := List.find?_some h
  exact beq_iff_eq.mp hid

theorem mem_of_node? {d : Diagram α} {id : String} {n : FlatNode α} (h : d.node? id = some n) :
    n ∈ d.nodes := by
  have hmem := List.mem_of_find?_eq_some h
  exact List.mem_reverse.mp hmem

/-- Ids that stand for entries are those of the entries. -/
theorem ids_entries {d : Diagram α} {ids : List String} (h : ∀ id ∈ ids, id ∈ d.nodes.map (·.id)) :
    (ids.filterMap d.node?).map (·.id) = ids := by
  induction ids with
  | nil => rfl
  | cons id ids ih =>
    obtain ⟨hid, hids⟩ := List.forall_mem_cons.mp h
    obtain ⟨n, -, hn⟩ := exists_node hid
    rw [List.filterMap_cons_some hn, List.map_cons, id_of_node? hn, ih hids]

/-- With different ids, an id stands for the one node that has it. -/
theorem node?_of_mem {d : Diagram α} (hd : (d.nodes.map (·.id)).Nodup) {n : FlatNode α}
    (hn : n ∈ d.nodes) : d.node? n.id = some n := by
  have hone : ∀ m ∈ d.nodes, m.id = n.id → m = n := fun m hm he =>
    List.inj_on_of_nodup_map hd hm hn he
  rw [Diagram.node?]
  cases hf : d.nodes.reverse.find? (·.id == n.id) with
  | none =>
    have hnone := List.find?_eq_none.mp hf n (List.mem_reverse.mpr hn)
    exact absurd BEq.rfl hnone
  | some m =>
    have hm := List.mem_reverse.mp (List.mem_of_find?_eq_some hf)
    have hid := List.find?_some hf
    rw [hone m hm (beq_iff_eq.mp hid)]

/-- The flat view of a document lists its components. -/
theorem flatView_diagram [Scalar α] {doc : Document α}
    (h : (doc.components.map (·.id)).Nodup) : FlatView (Build.diagram doc) doc.roots := by
  have hids := Build.ids_diagram doc
  have hd : ((Build.diagram doc).nodes.map (·.id)).Nodup := hids ▸ h
  refine ⟨h, hids, Build.rootIds_diagram doc, fun t ht => ?_⟩
  obtain ⟨n, hn, hid, hchildren⟩ := Build.entry_forest ht none 0
  have hnode : (Build.diagram doc).node? t.value.id = some n := hid ▸ node?_of_mem hd hn
  rw [Diagram.childrenOf, hnode]
  simp only [hchildren]
  refine ids_entries fun id hchild => ?_
  obtain ⟨c, hc, rfl⟩ := List.mem_map.mp hchild
  rw [hids]
  exact id_mem_forestIds (Tree.children_forestSubtrees ht c hc)

/-- Which diagram lists a forest is a matter of ids alone. -/
theorem flatView_forestMap {d : Diagram α} {forest : List (ComponentTree α)}
    {f : Component α → Component α} (hf : ∀ c, (f c).id = c.id) :
    FlatView d (Tree.forestMap f forest) ↔ FlatView d forest := by
  have hvalue (t : ComponentTree α) : (Tree.map f t).value.id = t.value.id := by
    rw [Tree.value_map, hf]
  have hvalues (ts : List (ComponentTree α)) :
      (Tree.forestMap f ts).map (·.value.id) = ts.map (·.value.id) := by
    rw [Tree.forestMap_eq_map, List.map_map]
    exact List.map_congr_left fun t _ => hvalue t
  have hids := forestIds_forestMap hf forest
  have hchildren (t : ComponentTree α) :
      (d.childrenOf (Tree.map f t).value.id).map (·.id) = (Tree.map f t).children.map (·.value.id) ↔
        (d.childrenOf t.value.id).map (·.id) = t.children.map (·.value.id) := by
    rw [hvalue, Tree.children_map, hvalues]
  refine ⟨fun h => ⟨hids ▸ h.distinct, h.ids.trans hids, h.roots.trans (hvalues forest), ?_⟩,
    fun h => ⟨hids.symm ▸ h.distinct, h.ids.trans hids.symm, h.roots.trans (hvalues forest).symm,
      ?_⟩⟩
  · intro t ht
    have hmapped : Tree.map f t ∈ Tree.forestSubtrees (Tree.forestMap f forest) := by
      rw [Tree.forestSubtrees_map]
      exact List.mem_map_of_mem ht
    exact (hchildren t).mp (h.children _ hmapped)
  · intro s hs
    rw [Tree.forestSubtrees_map] at hs
    obtain ⟨t, ht, rfl⟩ := List.mem_map.mp hs
    exact (hchildren t).mpr (h.children t ht)

namespace FlatView

variable {d : Diagram α} {forest : List (ComponentTree α)} (h : FlatView d forest)
include h

theorem nodup {t : ComponentTree α} (ht : t ∈ Tree.forestSubtrees forest) : (treeIds t).Nodup :=
  h.distinct.sublist (treeIds_sublist_forest ht)

/-- A component has an entry. -/
theorem exists_entry {id : String} (hid : id ∈ forestIds forest) : ∃ n, d.node? id = some n := by
  rw [← h.ids] at hid
  obtain ⟨n, -, hn⟩ := exists_node hid
  exact ⟨n, hn⟩

/-- An entry without a parent is the one of a tree of the forest. -/
theorem root {r : FlatNode α} (hr : r ∈ d.roots) : ∃ t ∈ forest, t.value.id = r.id := by
  have hmem := List.mem_map_of_mem (f := (·.id)) hr
  rw [h.roots] at hmem
  exact List.mem_map.mp hmem

/-- A tree of the forest has an entry without a parent. -/
theorem entry {t : ComponentTree α} (ht : t ∈ forest) : ∃ r ∈ d.roots, r.id = t.value.id := by
  have hmem := List.mem_map_of_mem (f := (·.value.id)) ht
  rw [← h.roots] at hmem
  exact List.mem_map.mp hmem

theorem roots_nodup : (d.roots.map (·.id)).Nodup := by
  rw [h.roots]
  exact h.distinct.sublist (rootIds_sublist forest)

/-- An id is that of one root only. -/
theorem eq_of_root {r s : FlatNode α} (hr : r ∈ d.roots) (hs : s ∈ d.roots) (he : r.id = s.id) :
    r = s :=
  List.inj_on_of_nodup_map h.roots_nodup hr hs he

/-- No tree has more components than there are entries. -/
theorem length_le {t : ComponentTree α} (ht : t ∈ Tree.forestSubtrees forest) :
    (treeIds t).length ≤ d.nodes.length := by
  have hlen := congrArg List.length h.ids
  rw [List.length_map] at hlen
  rw [hlen]
  exact (treeIds_sublist_forest ht).length_le

omit h in
theorem child_length_lt {t c : ComponentTree α} (hc : c ∈ t.children) :
    (forestIds c.children).length < (forestIds t.children).length :=
  (treeIds_sublist_forest (Tree.mem_forestSubtrees_of_mem hc)).length_le

private theorem descendantsTo_ids {depth : Nat} {t : ComponentTree α}
    (ht : t ∈ Tree.forestSubtrees forest) (hd : (forestIds t.children).length ≤ depth) :
    (d.descendantsTo depth t.value.id).map (·.id) = forestIds t.children := by
  induction depth generalizing t with
  | zero => rw [List.length_eq_zero_iff.mp (Nat.le_zero.mp hd)]; rfl
  | succ depth ih =>
    have hbelow : ∀ c ∈ t.children, (d.descendantsTo depth c.value.id).map (·.id) =
        forestIds c.children := by
      intro c hc
      have hlt := child_length_lt hc
      exact ih (Tree.children_forestSubtrees ht c hc) (by omega)
    have hchildren := h.children t ht
    rw [Diagram.descendantsTo]
    generalize t.children = cs at hbelow hchildren
    generalize d.childrenOf t.value.id = ns at hchildren
    induction cs generalizing ns with
    | nil => rw [List.map_eq_nil_iff.mp hchildren]; rfl
    | cons c cs ihc =>
      obtain ⟨hc, hcs⟩ := List.forall_mem_cons.mp hbelow
      obtain ⟨n, ns, rfl, hn, hns⟩ := List.map_eq_cons_iff.mp hchildren
      rw [List.flatMap_cons, List.map_append, List.map_cons, ihc hcs ns hns, hn, hc, forestIds_cons,
        treeIds]

/-- What lies below a component. -/
theorem descendants_ids {t : ComponentTree α} (ht : t ∈ Tree.forestSubtrees forest) :
    (d.descendants t.value.id).map (·.id) = forestIds t.children := by
  have hlen := h.length_le ht
  rw [treeIds, List.length_cons] at hlen
  exact descendantsTo_ids h ht (by omega)

end FlatView

end ComponentDiagram
