import ComponentDiagram.Proofs.Build.FlatView

/-! What the flat view says of a component. An entry is computed on the way down from a root, and
shows what the nested view shows when it is searched from above: the first component that contains
this one, and the number of those that lie around it. -/
namespace ComponentDiagram

variable {α : Type}

/-! ## What lies around a component -/

/-- The trees of a forest that have an id somewhere below them, in pre-order. -/
def around (ts : List (ComponentTree α)) (id : String) : List (ComponentTree α) :=
  (Tree.forestSubtrees ts).filter fun t => decide (id ∈ forestIds t.children)

/-- The first tree in pre-order that directly contains a component with the id. -/
def parentIn? (ts : List (ComponentTree α)) (id : String) : Option (ComponentTree α) :=
  (Tree.forestSubtrees ts).find? fun t => t.children.any (·.value.id == id)

section

variable {c : Component α} {children ts : List (ComponentTree α)} {id : String}

theorem around_cons : around (.node c children :: ts) id =
    (if id ∈ forestIds children then [.node c children] else []) ++
      (around children id ++ around ts id) := by
  rw [around, Tree.forestSubtrees, Tree.subtrees, List.cons_append, List.filter_cons,
    List.filter_append, around, around]
  by_cases hid : id ∈ forestIds children <;> simp [Tree.children, hid]

theorem parentIn?_cons : parentIn? (.node c children :: ts) id =
    if id ∈ children.map (·.value.id) then some (.node c children)
    else (parentIn? children id).or (parentIn? ts id) := by
  have hany : (children.any (·.value.id == id)) = decide (id ∈ children.map (·.value.id)) := by
    rw [Bool.eq_iff_iff]
    simp
  rw [parentIn?, Tree.forestSubtrees, Tree.subtrees, List.cons_append, List.find?_cons,
    List.find?_append, Tree.children, hany, parentIn?, parentIn?]
  by_cases hid : id ∈ children.map (·.value.id) <;> simp [hid]

end

/-- Nothing lies around an id that no component has. -/
theorem around_of_notMem : {ts : List (ComponentTree α)} → {id : String} → id ∉ forestIds ts →
    around ts id = [] ∧ parentIn? ts id = none
  | [], _, _ => ⟨rfl, rfl⟩
  | .node c children :: ts, id, h => by
    rw [forestIds_node, List.mem_cons, List.mem_append, not_or, not_or] at h
    obtain ⟨-, hin, hts⟩ := h
    have hroot : id ∉ children.map (·.value.id) := fun hid =>
      hin ((rootIds_sublist children).mem hid)
    rw [around_cons, parentIn?_cons, if_neg hin, if_neg hroot, (around_of_notMem hin).1,
      (around_of_notMem hin).2, (around_of_notMem hts).1, (around_of_notMem hts).2]
    exact ⟨rfl, rfl⟩

/-- With different ids, nothing lies around a root. -/
theorem around_root {ts : List (ComponentTree α)} (h : (forestIds ts).Nodup) {id : String}
    (hid : id ∈ ts.map (·.value.id)) : around ts id = [] ∧ parentIn? ts id = none := by
  induction ts with
  | nil => cases hid
  | cons t ts ih =>
    obtain ⟨c, children⟩ := t
    rw [forestIds_node, List.nodup_cons, List.nodup_append, List.mem_append, not_or] at h
    obtain ⟨⟨hc, hcts⟩, -, hts, hdisjoint⟩ := h
    have hin : id ∉ forestIds children := by
      rcases List.mem_cons.mp hid with rfl | hid
      · exact hc
      · exact fun hmem => hdisjoint id hmem id ((rootIds_sublist ts).mem hid) rfl
    have hroot : id ∉ children.map (·.value.id) := fun hid =>
      hin ((rootIds_sublist children).mem hid)
    have hrest : around ts id = [] ∧ parentIn? ts id = none := by
      rcases List.mem_cons.mp hid with rfl | hid
      · exact around_of_notMem hcts
      · exact ih hts hid
    rw [around_cons, parentIn?_cons, if_neg hin, if_neg hroot, (around_of_notMem hin).1,
      (around_of_notMem hin).2, hrest.1, hrest.2]
    exact ⟨rfl, rfl⟩

/-- A component that is no root lies in another one. -/
theorem exists_parentIn : {ts : List (ComponentTree α)} → {id : String} → id ∈ forestIds ts →
    id ∉ ts.map (·.value.id) → ∃ t, parentIn? ts id = some t
  | [], _, h, _ => by cases h
  | .node c children :: ts, id, h, hroot => by
    rw [List.map_cons, List.mem_cons, not_or] at hroot
    rw [parentIn?_cons]
    split
    · exact ⟨_, rfl⟩
    rename_i hchild
    rw [forestIds_node, List.mem_cons, List.mem_append] at h
    rcases h with h | h | h
    · exact absurd h hroot.1
    · obtain ⟨t, ht⟩ := exists_parentIn h hchild
      exact ⟨t, by rw [ht, Option.some_or]⟩
    · obtain ⟨t, ht⟩ := exists_parentIn h hroot.2
      cases hc : parentIn? children id with
      | none => exact ⟨t, ht⟩
      | some u => exact ⟨u, rfl⟩

namespace Build

variable [Scalar α]

/-- The entry that a forest has for one of its trees, if it lies in a component at some depth. -/
def entryIn (parent : Option String) (depth : Nat) (ts : List (ComponentTree α))
    (t : ComponentTree α) : FlatNode α :=
  flatNode (((parentIn? ts t.value.id).map (·.value.id)).or parent)
    (depth + (around ts t.value.id).length) t.value t.children

section

variable {parent : Option String} {depth : Nat} {c : Component α}
  {children ts : List (ComponentTree α)} {s : ComponentTree α}
  (h : (forestIds (.node c children :: ts)).Nodup)
include h

theorem entryIn_root :
    entryIn parent depth (.node c children :: ts) (.node c children) =
      flatNode parent depth c children := by
  have hroot : c.id ∈ (Tree.node c children :: ts).map (·.value.id) := List.mem_cons_self ..
  obtain ⟨haround, hparent⟩ := around_root h hroot
  rw [entryIn, Tree.value, haround, hparent]
  rfl

/-- An entry below the first root is one of what that root contains, one level further down. -/
theorem entryIn_below (hid : s.value.id ∈ forestIds children) :
    entryIn parent depth (.node c children :: ts) s = entryIn (some c.id) (depth + 1) children s := by
  rw [forestIds_node, List.nodup_cons, List.nodup_append] at h
  obtain ⟨-, hin, -, hdisjoint⟩ := h
  have hother : s.value.id ∉ forestIds ts := fun hmem => hdisjoint _ hid _ hmem rfl
  obtain ⟨haround, hparent⟩ := around_of_notMem hother
  rw [entryIn, entryIn, around_cons, parentIn?_cons, if_pos hid, haround, hparent]
  by_cases hroot : s.value.id ∈ children.map (·.value.id)
  · obtain ⟨haround', hparent'⟩ := around_root hin hroot
    rw [if_pos hroot, haround', hparent']
    rfl
  · obtain ⟨u, hu⟩ := exists_parentIn hid hroot
    have hdepth : depth + ([Tree.node c children] ++ (around children s.value.id ++ [])).length =
        depth + 1 + (around children s.value.id).length := by
      rw [List.append_nil, List.length_append, List.length_singleton]
      omega
    rw [if_neg hroot, hu, hdepth]
    rfl

/-- An entry beside the first root does not see it. -/
theorem entryIn_beside (hid : s.value.id ∈ forestIds ts) :
    entryIn parent depth (.node c children :: ts) s = entryIn parent depth ts s := by
  rw [forestIds_node, List.nodup_cons, List.nodup_append] at h
  obtain ⟨-, -, -, hdisjoint⟩ := h
  have hother : s.value.id ∉ forestIds children := fun hmem => hdisjoint _ hmem _ hid rfl
  have hroot : s.value.id ∉ children.map (·.value.id) := fun hmem =>
    hother ((rootIds_sublist children).mem hmem)
  obtain ⟨haround, hparent⟩ := around_of_notMem hother
  rw [entryIn, entryIn, around_cons, parentIn?_cons, if_neg hother, if_neg hroot, haround, hparent]
  rfl

end

/-- The entries that are computed on the way down are those that are found from above. -/
theorem flattenForest_entries : (ts : List (ComponentTree α)) → (forestIds ts).Nodup →
    (parent : Option String) → (depth : Nat) →
    flattenForest parent depth ts = (Tree.forestSubtrees ts).map (entryIn parent depth ts)
  | [], _, _, _ => rfl
  | .node c children :: ts, h, parent, depth => by
    have hparts := h
    rw [forestIds_node, List.nodup_cons, List.nodup_append] at hparts
    obtain ⟨-, hchildren, hts, -⟩ := hparts
    have hbelow : (Tree.forestSubtrees children).map (entryIn (some c.id) (depth + 1) children) =
        (Tree.forestSubtrees children).map (entryIn parent depth (.node c children :: ts)) :=
      List.map_congr_left fun s hs =>
        (entryIn_below h (List.mem_map_of_mem (List.mem_map_of_mem hs))).symm
    have hbeside : (Tree.forestSubtrees ts).map (entryIn parent depth ts) =
        (Tree.forestSubtrees ts).map (entryIn parent depth (.node c children :: ts)) :=
      List.map_congr_left fun s hs =>
        (entryIn_beside h (List.mem_map_of_mem (List.mem_map_of_mem hs))).symm
    rw [flattenForest, flattenTree, flattenForest_entries children hchildren,
      flattenForest_entries ts hts, Tree.forestSubtrees, Tree.subtrees, List.cons_append,
      List.cons_append, List.map_cons, List.map_append, entryIn_root h, hbelow, hbeside]

end Build

variable [Scalar α]

/-! ## Entries -/

namespace Document

/-- The components that a component lies in, from the outermost on. -/
def ancestors (doc : Document α) (id : String) : List (ComponentTree α) := around doc.roots id

/-- What the flat view has to say of a component, as the nested view shows it: the parent that is
found there, and the number of components around it. -/
def entry (doc : Document α) (t : ComponentTree α) : FlatNode α :=
  Build.flatNode ((doc.parent? t.value.id).map (·.value.id)) (doc.ancestors t.value.id).length
    t.value t.children

@[simp] theorem entry_id (doc : Document α) (t : ComponentTree α) :
    (doc.entry t).id = t.value.id := rfl

theorem nodes_eq {doc : Document α} (h : (doc.components.map (·.id)).Nodup) :
    (Build.diagram doc).nodes = (Tree.forestSubtrees doc.roots).map doc.entry := by
  refine (Build.flattenForest_entries doc.roots h none 0).trans (List.map_congr_left fun t _ => ?_)
  rw [Build.entryIn, Option.or_none, Nat.zero_add]
  rfl

theorem entry_mem {doc : Document α} (h : (doc.components.map (·.id)).Nodup)
    {t : ComponentTree α} (ht : t ∈ Tree.forestSubtrees doc.roots) :
    doc.entry t ∈ (Build.diagram doc).nodes := by
  rw [nodes_eq h]
  exact List.mem_map_of_mem ht

/-- Nodes of the flat view that have the ids of some components are their entries. -/
theorem eq_entries {doc : Document α} (h : (doc.components.map (·.id)).Nodup)
    {ns : List (FlatNode α)} {ts : List (ComponentTree α)}
    (hns : ∀ n ∈ ns, n ∈ (Build.diagram doc).nodes)
    (hts : ∀ t ∈ ts, t ∈ Tree.forestSubtrees doc.roots)
    (hids : ns.map (·.id) = ts.map (·.value.id)) : ns = ts.map doc.entry := by
  have hd : ((Build.diagram doc).nodes.map (·.id)).Nodup :=
    (flatView_diagram h).ids ▸ (flatView_diagram h).distinct
  induction ts generalizing ns with
  | nil => exact List.map_eq_nil_iff.mp hids
  | cons t ts ih =>
    obtain ⟨n, ns, rfl, hn, hrest⟩ := List.map_eq_cons_iff.mp hids
    rw [List.forall_mem_cons] at hns hts
    rw [List.map_cons, ih hns.2 hts.2 hrest,
      List.inj_on_of_nodup_map hd hns.1 (entry_mem h hts.1) hn]

end Document

end ComponentDiagram
