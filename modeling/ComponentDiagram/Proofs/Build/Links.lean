import ComponentDiagram.Proofs.Build.FlatView

/-! The links between the entries of a flat view: each entry names its parent and its children, and
counts how many components lie around it. -/
namespace ComponentDiagram

variable {α : Type}

/-- Entries have different ids, and a child and its parent name each other. -/
structure Diagram.IsLinked (d : Diagram α) : Prop where
  distinct : (d.nodes.map (·.id)).Nodup
  root : ∀ n ∈ d.nodes, n.parent = none → n.depth = 0
  child : ∀ m ∈ d.nodes, ∀ x ∈ m.childIds,
    ∃ n ∈ d.nodes, n.id = x ∧ n.parent = some m.id ∧ n.depth = m.depth + 1
  parent : ∀ n ∈ d.nodes, ∀ b, n.parent = some b →
    ∃ m ∈ d.nodes, m.id = b ∧ n.id ∈ m.childIds ∧ n.depth = m.depth + 1

namespace Build

variable [Scalar α]

theorem flattenForest_tree (parent : Option String) (depth : Nat) {ts : List (ComponentTree α)}
    {t : ComponentTree α} (ht : t ∈ ts) : ∃ n ∈ flattenForest parent depth ts,
      n.id = t.value.id ∧ n.parent = parent ∧ n.depth = depth := by
  induction ts with
  | nil => cases ht
  | cons u ts ih =>
    rw [flattenForest]
    rcases List.mem_cons.mp ht with rfl | ht
    · obtain ⟨c, children⟩ := t
      exact ⟨_, List.mem_append_left _ (List.mem_cons_self ..), rfl, rfl, rfl⟩
    · obtain ⟨n, hn, hlinks⟩ := ih ht
      exact ⟨n, List.mem_append_right _ hn, hlinks⟩

/-- The children that an entry names have entries that name it. -/
theorem flattenForest_child {parent : Option String} {depth : Nat} : {ts : List (ComponentTree α)} →
    ∀ m ∈ flattenForest parent depth ts, ∀ x ∈ m.childIds, ∃ n ∈ flattenForest parent depth ts,
      n.id = x ∧ n.parent = some m.id ∧ n.depth = m.depth + 1
  | [], _, hm => by cases hm
  | .node c children :: ts, m, hm => by
    intro x hx
    rw [flattenForest, flattenTree, List.cons_append] at hm ⊢
    rcases List.mem_cons.mp hm with rfl | hm
    · obtain ⟨t, ht, rfl⟩ := List.mem_map.mp hx
      obtain ⟨n, hn, hlinks⟩ := flattenForest_tree (some c.id) (depth + 1) ht
      exact ⟨n, List.mem_cons_of_mem _ (List.mem_append_left _ hn), hlinks⟩
    rcases List.mem_append.mp hm with hm | hm
    · obtain ⟨n, hn, hlinks⟩ := flattenForest_child m hm x hx
      exact ⟨n, List.mem_cons_of_mem _ (List.mem_append_left _ hn), hlinks⟩
    · obtain ⟨n, hn, hlinks⟩ := flattenForest_child m hm x hx
      exact ⟨n, List.mem_cons_of_mem _ (List.mem_append_right _ hn), hlinks⟩

/-- An entry is that of a tree of the forest, or it is named by the entry that it names. -/
theorem flattenForest_parent {parent : Option String} {depth : Nat} :
    {ts : List (ComponentTree α)} → ∀ n ∈ flattenForest parent depth ts,
      (n.parent = parent ∧ n.depth = depth ∧ n.id ∈ ts.map (·.value.id)) ∨
      ∃ m ∈ flattenForest parent depth ts,
        n.parent = some m.id ∧ n.id ∈ m.childIds ∧ n.depth = m.depth + 1
  | [], _, hn => by cases hn
  | .node c children :: ts, n, hn => by
    rw [flattenForest, flattenTree, List.cons_append] at hn ⊢
    rcases List.mem_cons.mp hn with rfl | hn
    · exact .inl ⟨rfl, rfl, List.mem_cons_self ..⟩
    rcases List.mem_append.mp hn with hn | hn
    · right
      rcases flattenForest_parent n hn with ⟨hp, hd, hid⟩ | ⟨m, hm, hlinks⟩
      · exact ⟨_, List.mem_cons_self .., hp, hid, hd⟩
      · exact ⟨m, List.mem_cons_of_mem _ (List.mem_append_left _ hm), hlinks⟩
    · rcases flattenForest_parent n hn with ⟨hp, hd, hid⟩ | ⟨m, hm, hlinks⟩
      · exact .inl ⟨hp, hd, List.mem_cons_of_mem _ hid⟩
      · exact .inr ⟨m, List.mem_cons_of_mem _ (List.mem_append_right _ hm), hlinks⟩

/-- The flat view of a document is linked, whatever ports and connectors it has. -/
theorem isLinked_of_nodes {doc : Document α} (h : (doc.components.map (·.id)).Nodup)
    {d : Diagram α} (hd : d.nodes = (flatten doc).nodes) : d.IsLinked where
  distinct := by
    rw [hd]
    exact (flattenForest_ids none 0 doc.roots).symm ▸ h
  root n hn hp := by
    rw [hd] at hn
    rcases flattenForest_parent n hn with ⟨-, hdepth, -⟩ | ⟨m, -, hparent, -⟩
    · exact hdepth
    · rw [hp] at hparent
      cases hparent
  child := by
    rw [hd]
    exact flattenForest_child
  parent n hn b hb := by
    rw [hd] at hn ⊢
    rcases flattenForest_parent n hn with ⟨hp, -⟩ | ⟨m, hm, hparent, hlinks⟩
    · rw [hb] at hp
      cases hp
    · rw [hb] at hparent
      exact ⟨m, hm, (Option.some.inj hparent).symm, hlinks⟩

end Build

namespace Diagram

/-- How many components lie around a node; none around an unknown one. -/
def level (d : Diagram α) (id : String) : Nat := ((d.node? id).map (·.depth)).getD 0

theorem parentOf_some {d : Diagram α} {id b : String} :
    d.parentOf (some id) = some b ↔ ∃ n, d.node? id = some n ∧ n.parent = some b := by
  simp [parentOf, Option.bind_eq_some_iff]

theorem parentOf_congr {d e : Diagram α} (h : d.nodes = e.nodes) (id : Option String) :
    d.parentOf id = e.parentOf id := by
  have hnode : d.node? = e.node? := by
    funext x
    rw [node?, node?, h]
  rw [parentOf, parentOf, hnode]

namespace IsLinked

variable {d : Diagram α} (h : d.IsLinked)
include h

/-- A node lies in another one exactly if that one names it as a child. -/
theorem parentOf_iff {m : FlatNode α} {b x : String} (hb : d.node? b = some m) :
    d.parentOf (some x) = some b ↔ x ∈ m.childIds := by
  have hm := mem_of_node? hb
  obtain rfl := id_of_node? hb
  constructor
  · intro hp
    obtain ⟨n, hn, hparent⟩ := parentOf_some.mp hp
    obtain ⟨m', hm', hid, hx, -⟩ := h.parent n (mem_of_node? hn) _ hparent
    rw [id_of_node? hn] at hx
    rwa [List.inj_on_of_nodup_map h.distinct hm' hm hid] at hx
  · intro hx
    obtain ⟨n, hn, rfl, hparent, -⟩ := h.child m hm x hx
    exact parentOf_some.mpr ⟨n, node?_of_mem h.distinct hn, hparent⟩

/-- A node lies one level below its parent. -/
theorem level_parent {b x : String} (hp : d.parentOf (some x) = some b) :
    d.level x = d.level b + 1 := by
  obtain ⟨n, hnode, hparent⟩ := parentOf_some.mp hp
  obtain ⟨m, hm, rfl, -, hdepth⟩ := h.parent n (mem_of_node? hnode) _ hparent
  rw [level, level, hnode, node?_of_mem h.distinct hm]
  exact hdepth

theorem level_root {x : String} (hp : d.parentOf (some x) = none) : d.level x = 0 := by
  rw [level]
  cases hnode : d.node? x with
  | none => rfl
  | some n =>
    refine h.root n (mem_of_node? hnode) ?_
    simpa [parentOf, hnode] using hp

/-- Nodes with one parent lie at one level. -/
theorem level_congr {x y : String} (hp : d.parentOf (some x) = d.parentOf (some y)) :
    d.level x = d.level y := by
  cases hx : d.parentOf (some x) with
  | none => rw [h.level_root hx, h.level_root (hp.symm.trans hx)]
  | some b => rw [h.level_parent hx, h.level_parent (hp.symm.trans hx)]

end IsLinked

end Diagram

end ComponentDiagram
