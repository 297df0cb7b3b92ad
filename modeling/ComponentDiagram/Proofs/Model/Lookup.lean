import ComponentDiagram.Model.NodeIndex
import Mathlib

/-! Lookups in a list of nodes. An index that fits leads to what a scan of the list finds, so each
answer is that of a fresh scan, whatever was edited since the index was built. -/
namespace ComponentDiagram

variable {α : Type}

/-! ## A scan -/

namespace NodeList

variable {list : NodeList α}

theorem mem_of_scan {id : String} {r : Nat} (h : list.scan id = some r) :
    r ∈ list.references ∧ (list.node r).id = id := by
  have hid := List.find?_some h
  exact ⟨List.mem_reverse.mp (List.mem_of_find?_eq_some h), beq_iff_eq.mp hid⟩

theorem scan_eq_none {id : String} :
    list.scan id = none ↔ id ∉ list.references.map fun r => (list.node r).id := by
  simp [scan]

/-- If every id leads back to one object, a scan finds the object that it leads to. -/
theorem scan_eq_of_mem {id : String} {r : Nat} (hr : r ∈ list.references)
    (hid : (list.node r).id = id)
    (hone : ∀ q ∈ list.references, (list.node q).id = id → q = r) : list.scan id = some r := by
  cases hscan : list.scan id with
  | none => exact absurd (List.mem_map.mpr ⟨r, hr, hid⟩) (scan_eq_none.mp hscan)
  | some q => rw [hone q (mem_of_scan hscan).1 (mem_of_scan hscan).2]

/-- The index of a list answers like a scan of it. -/
theorem get?_index (list : NodeList α) (id : String) : list.index.get? id = list.scan id := by
  rw [index, scan]
  -- entries are set in list order, so the last one that is set is the first of the reversed list
  induction list.references using List.reverseRecOn with
  | nil => rfl
  | append_singleton rest r ih =>
    rw [List.foldl_concat, IdIndex.get?_set, List.reverse_concat, List.find?_cons, ih]
    by_cases hid : id = (list.node r).id
    · simp [hid]
    · simp [hid, beq_false_of_ne (Ne.symm hid)]

end NodeList

/-! ## An index that fits -/

/-- An id stands for the reference of an entry, if for any. -/
theorem IdIndex.mem_of_get? {index : IdIndex} {id : String} {r : Nat}
    (h : index.get? id = some r) : r ∈ index.entries.map Prod.snd := by
  obtain ⟨before, after, he, -⟩ := List.lookup_eq_some_iff.mp h
  rw [he]
  simp

namespace NodeTable

variable {table : NodeTable α}

theorem fits_iff : table.fits = true ↔ table.kept.size = table.references.length ∧
    ∀ r ∈ table.references, table.kept.get? (table.node r).id = some r := by
  simp [fits]

/-- An index that fits has entries for the ids of the list and no others: these are distinct, since
they lead to distinct objects, and as many as there are entries. -/
theorem keys_perm (hd : table.references.Nodup) (hf : table.fits = true) :
    (table.references.map fun r => (table.node r).id).Perm
      (table.kept.entries.map Prod.fst) := by
  obtain ⟨hsize, hback⟩ := fits_iff.mp hf
  have hids : (table.references.map fun r => (table.node r).id).Nodup := by
    refine hd.map_on fun r hr q hq he => ?_
    have hr' := hback r hr
    rw [he, hback q hq] at hr'
    exact (Option.some.inj hr').symm
  have hsub : (table.references.map fun r => (table.node r).id) ⊆
      table.kept.entries.map Prod.fst := by
    intro id hid
    obtain ⟨r, hr, rfl⟩ := List.mem_map.mp hid
    rw [← IdIndex.isSome_get?, hback r hr, Option.isSome_some]
  have hlength : (table.kept.entries.map Prod.fst).length ≤
      (table.references.map fun r => (table.node r).id).length := by
    rw [List.length_map, List.length_map]
    exact hsize.le
  exact (List.subperm_of_subset hids hsub).perm_of_length_le hlength

/-- An index that fits answers like a scan of the list, also for ids that are in no node. -/
theorem get?_of_fits (hd : table.references.Nodup) (hf : table.fits = true) (id : String) :
    table.kept.get? id = table.scan id := by
  have hkeys := keys_perm hd hf
  obtain ⟨-, hback⟩ := fits_iff.mp hf
  by_cases hid : id ∈ table.references.map fun r => (table.node r).id
  · obtain ⟨r, hr, rfl⟩ := List.mem_map.mp hid
    rw [hback r hr]
    refine (NodeList.scan_eq_of_mem hr rfl fun q hq he => ?_).symm
    have hq' := hback q hq
    rw [he, hback r hr] at hq'
    exact (Option.some.inj hq').symm
  · rw [NodeList.scan_eq_none.mpr hid, ← Option.not_isSome_iff_eq_none, IdIndex.isSome_get?]
    exact fun hmem => hid (hkeys.mem_iff.mpr hmem)

@[simp] theorem refresh_toNodeList (table : NodeTable α) :
    table.refresh.toNodeList = table.toNodeList := by
  rw [refresh]
  split <;> rfl

theorem get?_refresh (hd : table.references.Nodup) (id : String) :
    table.refresh.kept.get? id = table.scan id := by
  rw [refresh]
  split
  · rename_i hf
    exact get?_of_fits hd hf id
  · exact table.get?_index id

theorem lookup_eq (hd : table.references.Nodup) (id : String) :
    table.lookup id = (table.scan id, table.refresh) := by
  rw [lookup, get?_refresh hd]

theorem children_eq (hd : table.references.Nodup) (id : String) :
    (table.children id).1 = table.scanChildren id ∧
      (table.children id).2.toNodeList = table.toNodeList := by
  rw [children, lookup_eq hd, NodeList.scanChildren]
  cases table.scan id with
  | none => exact ⟨rfl, refresh_toNodeList table⟩
  | some r =>
    have hd' : table.refresh.references.Nodup := by rwa [refresh_toNodeList]
    have hget : table.refresh.refresh.kept.get? = table.scan := by
      funext key
      rw [get?_refresh hd', refresh_toNodeList]
    simp [hget]

/-- A lookup finds the node that the id stands for in the flat view of the list. -/
theorem node_lookup (hd : table.references.Nodup) (id : String) :
    (table.lookup id).1.map table.node = table.diagram.node? id := by
  rw [lookup_eq hd, NodeList.node_scan]

theorem node_children (hd : table.references.Nodup) (id : String) :
    (table.children id).1.map table.node = table.diagram.childrenOf id := by
  rw [(children_eq hd id).1, NodeList.node_scanChildren]

/-! ## The objects of a diagram -/

theorem nodes_ofNodes [Scalar α] (nodes : List (FlatNode α)) :
    (ofNodes nodes).diagram.nodes = nodes ∧ (ofNodes nodes).references.Nodup := by
  refine ⟨List.ext_getElem (by simp [ofNodes, NodeList.diagram]) fun i hi hi' => ?_,
    List.nodup_range⟩
  simp [ofNodes, NodeList.diagram, hi']

theorem node_change (table : NodeTable α) (r : Nat) (n : FlatNode α) (q : Nat) :
    (table.change (r, n)).node q = if q = r then n else table.node q := rfl

/-- Changes leave the list and all other objects as they were. -/
theorem foldl_change (table : NodeTable α) (entries : List (Nat × FlatNode α)) :
    (entries.foldl change table).references = table.references ∧
      ∀ r ∉ entries.map Prod.fst, (entries.foldl change table).node r = table.node r := by
  induction entries generalizing table with
  | nil => exact ⟨rfl, fun _ _ => rfl⟩
  | cons entry rest ih =>
    obtain ⟨hreferences, hnode⟩ := ih (table.change entry)
    refine ⟨hreferences, fun r hr => ?_⟩
    rw [List.map_cons, List.mem_cons, not_or] at hr
    rw [List.foldl_cons, hnode r hr.2, node_change, if_neg hr.1]

/-- Distinct objects carry what they are given: no later change takes it back. -/
theorem map_node_foldl {references : List Nat} (hd : references.Nodup) {nodes : List (FlatNode α)}
    (hl : nodes.length = references.length) :
    references.map ((references.zip nodes).foldl change table).node = nodes := by
  induction references generalizing nodes table with
  | nil => exact (List.length_eq_zero_iff.mp hl).symm
  | cons r rest ih =>
    obtain ⟨n, nodes, rfl⟩ := List.exists_cons_of_length_eq_add_one hl
    obtain ⟨hr, hrest⟩ := List.nodup_cons.mp hd
    have hkeys : r ∉ (rest.zip nodes).map Prod.fst := by
      intro hmem
      obtain ⟨entry, hentry, rfl⟩ := List.mem_map.mp hmem
      exact hr (List.of_mem_zip hentry).1
    rw [List.zip_cons_cons, List.foldl_cons, List.map_cons, (foldl_change _ _).2 r hkeys,
      node_change, if_pos rfl, ih hrest (Nat.succ.inj hl)]

theorem nodes_carry (hd : table.references.Nodup) {nodes : List (FlatNode α)}
    (hl : nodes.length = table.references.length) : (table.carry nodes).diagram.nodes = nodes := by
  rw [NodeList.diagram, carry, (foldl_change _ _).1]
  exact map_node_foldl hd hl

/-- No object of the list and no entry of the index has a fresh reference, since it is larger than
all of theirs. -/
theorem fresh_spec (table : NodeTable α) :
    table.fresh ∉ table.references ∧ ∀ id, table.kept.get? id ≠ some table.fresh := by
  have habove (r : Nat) (hr : r ∈ table.references ++ table.kept.entries.map Prod.snd) :
      r < table.fresh := Nat.lt_succ_of_le (List.le_sum_of_mem hr)
  refine ⟨fun h => ?_, fun id h => ?_⟩
  · exact (habove _ (List.mem_append_left _ h)).ne rfl
  · exact (habove _ (List.mem_append_right _ (IdIndex.mem_of_get? h))).ne rfl

/-- A new object carries its node, and the nodes of the list stay what they were until it is in. -/
theorem nodes_change_fresh (table : NodeTable α) (n : FlatNode α) :
    (table.change (table.fresh, n)).node table.fresh = n ∧
      (table.change (table.fresh, n)).diagram.nodes = table.diagram.nodes := by
  have hlist : ∀ r ∈ table.references, (table.change (table.fresh, n)).node r = table.node r := by
    intro r hr
    have hne : r ≠ table.fresh := fun he => (fresh_spec table).1 (he ▸ hr)
    rw [node_change, if_neg hne]
  exact ⟨if_pos rfl, List.map_congr_left hlist⟩

end NodeTable

/-! ## Edits and lookups in any order -/

/-- What is done with a list of nodes. -/
inductive NodeAction (α : Type)
  | edit (edit : NodeEdit α)
  | lookup (id : String)
  | children (id : String)

inductive NodeAnswer
  | node (reference : Option Nat)
  | children (references : List Nat)
deriving DecidableEq

/-- Only edits change the list. -/
def NodeList.after (list : NodeList α) : NodeAction α → NodeList α
  | .edit edit => list.edit edit
  | .lookup _ => list
  | .children _ => list

/-- The answers of a fresh scan for each lookup. -/
def NodeList.answers (list : NodeList α) : List (NodeAction α) → List NodeAnswer
  | [] => []
  | .edit edit :: rest => (list.edit edit).answers rest
  | .lookup id :: rest => .node (list.scan id) :: list.answers rest
  | .children id :: rest => .children (list.scanChildren id) :: list.answers rest

/-- The list never holds an object twice. -/
def NodeList.StaysDistinct (list : NodeList α) : List (NodeAction α) → Prop
  | [] => list.references.Nodup
  | action :: rest => list.references.Nodup ∧ (list.after action).StaysDistinct rest

instance NodeList.decidableStaysDistinct (list : NodeList α) :
    (actions : List (NodeAction α)) → Decidable (list.StaysDistinct actions)
  | [] => inferInstanceAs (Decidable list.references.Nodup)
  | action :: rest =>
    have := decidableStaysDistinct (list.after action) rest
    inferInstanceAs (Decidable (_ ∧ _))

namespace NodeTable

/-- The answers of the index, which each lookup leaves to the next one. -/
def answers (table : NodeTable α) : List (NodeAction α) → List NodeAnswer
  | [] => []
  | .edit edit :: rest => (table.edit edit).answers rest
  | .lookup id :: rest => .node (table.lookup id).1 :: (table.lookup id).2.answers rest
  | .children id :: rest =>
    .children (table.children id).1 :: (table.children id).2.answers rest

/-- Each lookup answers what a fresh scan of the list answers, whichever index there was at the
start and whatever has been edited and looked up before. -/
theorem answers_eq_scans (table : NodeTable α) (actions : List (NodeAction α))
    (h : table.toNodeList.StaysDistinct actions) :
    table.answers actions = table.toNodeList.answers actions := by
  induction actions generalizing table with
  | nil => rfl
  | cons action rest ih =>
    obtain ⟨hd, hrest⟩ := h
    cases action with
    | edit edit => exact ih (table.edit edit) hrest
    | lookup id =>
      have hlist := refresh_toNodeList table
      rw [answers, NodeList.answers, lookup_eq hd, ih _ (by rwa [hlist]), hlist]
    | children id =>
      obtain ⟨hanswer, hlist⟩ := children_eq hd id
      rw [answers, NodeList.answers, hanswer, ih _ (by rwa [hlist]), hlist]

/-- Two nodes, and two more that are not in the list. -/
def fourNodes : NodeTable Rat where
  node
    | 0 => { id := "a", label := "", x := 0, y := 0 }
    | 1 => { id := "b", label := "", x := 0, y := 0, childIds := ["a", "c"] }
    | 2 => { id := "c", label := "", x := 0, y := 0 }
    | _ => { id := "a", label := "", x := 0, y := 0 }
  references := [0, 1]

/-- A node makes room for another and the list is turned around; then one node gets the id of
another, and of the two the later one goes. -/
def reworking : List (NodeAction Rat) :=
  [.lookup "a", .edit (.replaceAt 0 2), .lookup "a", .edit (.arrange [1, 2]), .lookup "c",
    .edit (.append 3), .edit (.change 2 fun n => { n with id := "a" }), .lookup "a",
    .edit (.removeAt 2), .lookup "a", .lookup "c", .children "b"]

theorem answers_eq_scans_reworking : fourNodes.toNodeList.StaysDistinct reworking ∧
    fourNodes.answers reworking = [.node (some 0), .node none, .node (some 2), .node (some 3),
      .node (some 2), .node none, .children [2]] :=
  ⟨by decide, (answers_eq_scans fourNodes reworking (by decide)).trans (by decide)⟩

/-- An object that is in the list twice makes up for an entry that no node has any more. -/
example :
    let table := { fourNodes with references := [0, 0], kept := ⟨[("a", 0), ("b", 1)], by decide⟩ }
    (table.lookup "b").1 = some 1 ∧ table.scan "b" = none := by
  decide

end NodeTable

end ComponentDiagram
