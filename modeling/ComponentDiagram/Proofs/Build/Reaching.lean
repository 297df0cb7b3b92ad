import ComponentDiagram.Proofs.Build.FlatView

/-! Which ids are found by following children from the roots down. An id stands for the last
component that has it, so what the others hold may not be found. -/
namespace ComponentDiagram

variable {α : Type}

/-! ## Ids that are reached -/

/-- An id and those that are found below it, to a bounded depth. -/
def Diagram.reach (d : Diagram α) (depth : Nat) (id : String) : List String :=
  id :: (d.descendantsTo depth id).map (·.id)

namespace Diagram

variable {d : Diagram α}

theorem mem_reach_zero {key id : String} : key ∈ d.reach 0 id ↔ key = id := by
  simp [reach, descendantsTo]

theorem mem_reach_succ {depth : Nat} {key id : String} :
    key ∈ d.reach (depth + 1) id ↔
      key = id ∨ ∃ c ∈ (d.childrenOf id).map (·.id), key ∈ d.reach depth c := by
  simp only [reach, descendantsTo, List.mem_cons, List.mem_map, List.mem_flatMap,
    exists_exists_and_eq_and]
  refine or_congr_right ⟨?_, ?_⟩
  · rintro ⟨n, ⟨c, hc, rfl | hn⟩, rfl⟩
    · exact ⟨n, hc, .inl rfl⟩
    · exact ⟨c, hc, .inr ⟨n, hn, rfl⟩⟩
  · rintro ⟨c, hc, rfl | ⟨n, hn, rfl⟩⟩
    · exact ⟨c, ⟨c, hc, .inl rfl⟩, rfl⟩
    · exact ⟨n, ⟨c, hc, .inr hn⟩, rfl⟩

/-- What is reached is the start, or a child of what it is reached from. -/
theorem child_of_mem_reach {depth : Nat} {key id : String} (h : key ∈ d.reach depth id) :
    key = id ∨ ∃ parent, key ∈ (d.childrenOf parent).map (·.id) := by
  induction depth generalizing id with
  | zero => exact .inl (mem_reach_zero.mp h)
  | succ depth ih =>
    rcases mem_reach_succ.mp h with rfl | ⟨c, hc, hkey⟩
    · exact .inl rfl
    rcases ih hkey with rfl | hparent
    · exact .inr ⟨id, hc⟩
    · exact .inr hparent

/-- The children of what is reached are reached one step later. -/
theorem mem_reach_child {depth : Nat} {key parent id : String} (h : parent ∈ d.reach depth id)
    (hkey : key ∈ (d.childrenOf parent).map (·.id)) : key ∈ d.reach (depth + 1) id := by
  induction depth generalizing id with
  | zero =>
    obtain rfl := mem_reach_zero.mp h
    exact mem_reach_succ.mpr (.inr ⟨key, hkey, List.mem_cons_self ..⟩)
  | succ depth ih =>
    rcases mem_reach_succ.mp h with rfl | ⟨c, hc, hparent⟩
    · exact mem_reach_succ.mpr (.inr ⟨key, hkey, List.mem_cons_self ..⟩)
    · exact mem_reach_succ.mpr (.inr ⟨c, hc, ih hparent⟩)

/-- A number falls from every id to its children. -/
def IsRanked (d : Diagram α) (rank : String → Nat) : Prop :=
  ∀ id, ∀ c ∈ d.childrenOf id, rank c.id < rank id

theorem IsRanked.childrenOf_eq_nil {rank : String → Nat} (h : d.IsRanked rank) {id : String}
    (hid : rank id = 0) : d.childrenOf id = [] := by
  refine List.eq_nil_iff_forall_not_mem.mpr fun c hc => ?_
  have hlt := h id c hc
  omega

/-- What lies below an id is found in as many steps as its number says. -/
theorem IsRanked.descendantsTo_eq {rank : String → Nat} (h : d.IsRanked rank) {depth more : Nat}
    {id : String} (hd : rank id ≤ depth) (hm : rank id ≤ more) :
    d.descendantsTo depth id = d.descendantsTo more id := by
  induction depth generalizing id more with
  | zero =>
    cases more with
    | zero => rfl
    | succ more =>
      rw [descendantsTo, descendantsTo, h.childrenOf_eq_nil (Nat.le_zero.mp hd), List.flatMap_nil]
  | succ depth ih =>
    cases more with
    | zero =>
      rw [descendantsTo, descendantsTo, h.childrenOf_eq_nil (Nat.le_zero.mp hm), List.flatMap_nil]
    | succ more =>
      rw [descendantsTo, descendantsTo]
      refine List.flatMap_congr fun c hc => ?_
      have hlt := h id c hc
      exact congrArg (c :: ·) (ih (by omega) (by omega))

end Diagram

/-! ## Components that are addressed -/

namespace Tree

variable {β : Type}

/-- In pre-order the children of a tree stand behind it. -/
theorem children_behind : {ts : List (Tree β)} → {before after : List (Tree β)} → {t : Tree β} →
    forestSubtrees ts = before ++ t :: after → ∀ c ∈ t.children, c ∈ after
  | [], before, after, t, h => by simp [forestSubtrees] at h
  | .node v us :: ts, before, after, t, h => by
    -- The tree is the first one of the forest, lies below it, or stands behind it.
    intro c hc
    rw [forestSubtrees, subtrees, List.cons_append] at h
    cases before with
    | nil =>
      obtain ⟨rfl, rfl⟩ := List.cons.inj h
      exact List.mem_append_left _ (mem_forestSubtrees_of_mem hc)
    | cons u before =>
      obtain ⟨-, h⟩ := List.cons.inj h
      rcases List.append_eq_append_iff.mp h with ⟨rest, -, hts⟩ | ⟨rest, hus, hrest⟩
      · exact children_behind hts c hc
      · cases rest with
        | nil =>
          have hts : forestSubtrees ts = [] ++ t :: after := hrest.symm
          exact children_behind hts c hc
        | cons s rest =>
          obtain ⟨rfl, rfl⟩ := List.cons.inj hrest
          exact List.mem_append_left _ (children_behind hus c hc)

/-- A tree that is no root is a child. -/
theorem root_or_child : {ts : List (Tree β)} → {s : Tree β} → s ∈ forestSubtrees ts →
    s ∈ ts ∨ ∃ t ∈ forestSubtrees ts, s ∈ t.children
  | [], _, hs => by cases hs
  | .node v us :: ts, s, hs => by
    rw [forestSubtrees, subtrees, List.cons_append, List.mem_cons, List.mem_append] at hs
    simp only [forestSubtrees, subtrees, List.cons_append, List.mem_cons, List.mem_append]
    rcases hs with rfl | hs | hs
    · exact .inl (.inl rfl)
    · rcases root_or_child hs with hroot | ⟨t, ht, hchild⟩
      · exact .inr ⟨.node v us, .inl rfl, hroot⟩
      · exact .inr ⟨t, .inr (.inl ht), hchild⟩
    · rcases root_or_child hs with hroot | ⟨t, ht, hchild⟩
      · exact .inl (.inr hroot)
      · exact .inr ⟨t, .inr (.inr ht), hchild⟩

end Tree

namespace Document

/-- The last component in pre-order with the id, with all that it contains. -/
def last? (doc : Document α) (id : String) : Option (ComponentTree α) :=
  (Tree.forestSubtrees doc.roots).reverse.find? (·.value.id == id)

/-- The ids of the children of the last component with the id. -/
def childIds (doc : Document α) (id : String) : List String :=
  match doc.last? id with
  | some t => t.children.map (·.value.id)
  | none => []

/-- The id is that of a root, or of a child of a component that is the last one with its own id. -/
def IsAddressed (doc : Document α) (id : String) : Prop :=
  id ∈ doc.roots.map (·.value.id) ∨ ∃ c ∈ doc.components, id ∈ doc.childIds c.id

instance (doc : Document α) (id : String) : Decidable (doc.IsAddressed id) :=
  inferInstanceAs (Decidable (_ ∨ _))

/-- How many components stand behind the last one with the id. -/
def rank (doc : Document α) (id : String) : Nat :=
  (Tree.forestSubtrees doc.roots).reverse.findIdx (·.value.id == id)

variable {doc : Document α}

theorem mem_childIds {id key : String} :
    key ∈ doc.childIds id ↔ ∃ t, doc.last? id = some t ∧ key ∈ t.children.map (·.value.id) := by
  rw [childIds]
  cases doc.last? id <;> simp

theorem last?_some {id : String} {t : ComponentTree α} (h : doc.last? id = some t) :
    t ∈ Tree.forestSubtrees doc.roots ∧ t.value.id = id := by
  have hid := List.find?_some h
  exact ⟨List.mem_reverse.mp (List.mem_of_find?_eq_some h), beq_iff_eq.mp hid⟩

/-- With different ids, a component is the last one with its id. -/
theorem last?_of_nodup (h : (forestIds doc.roots).Nodup) {t : ComponentTree α}
    (ht : t ∈ Tree.forestSubtrees doc.roots) : doc.last? t.value.id = some t := by
  have hsome : (doc.last? t.value.id).isSome = true :=
    List.find?_isSome.mpr ⟨t, List.mem_reverse.mpr ht, beq_self_eq_true _⟩
  obtain ⟨s, hs⟩ := Option.isSome_iff_exists.mp hsome
  obtain ⟨hmem, hid⟩ := last?_some hs
  have hids : ((Tree.forestSubtrees doc.roots).map (·.value.id)).Nodup := by
    rwa [forestIds, Tree.values, List.map_map] at h
  rw [hs, List.inj_on_of_nodup_map hids hmem ht hid]

theorem isAddressed_of_nodup (h : (forestIds doc.roots).Nodup) {id : String}
    (hid : id ∈ forestIds doc.roots) : doc.IsAddressed id := by
  obtain ⟨t, ht, rfl⟩ := mem_forestIds_iff.mp hid
  rcases Tree.root_or_child ht with hroot | ⟨s, hs, hchild⟩
  · exact .inl (List.mem_map_of_mem hroot)
  · exact .inr ⟨s.value, List.mem_map_of_mem hs,
      mem_childIds.mpr ⟨s, last?_of_nodup h hs, List.mem_map_of_mem hchild⟩⟩

theorem rank_le (doc : Document α) (id : String) :
    doc.rank id ≤ (Tree.forestSubtrees doc.roots).length := by
  rw [← List.length_reverse]
  exact List.findIdx_le_length

/-- Fewer components stand behind a child. -/
theorem rank_child {parent id : String} (h : id ∈ doc.childIds parent) :
    doc.rank id < doc.rank parent := by
  obtain ⟨t, ht, hid⟩ := mem_childIds.mp h
  obtain ⟨-, behind, before, hsplit, hbehind⟩ := List.find?_eq_some_iff_append.mp ht
  obtain ⟨c, hc, rfl⟩ := List.mem_map.mp hid
  have hforest : Tree.forestSubtrees doc.roots = before.reverse ++ t :: behind.reverse := by
    rw [← List.reverse_reverse (Tree.forestSubtrees doc.roots), hsplit]
    simp
  have hmem : c ∈ behind := List.mem_reverse.mp (Tree.children_behind hforest c hc)
  have hlt : behind.findIdx (·.value.id == c.value.id) < behind.length :=
    List.findIdx_lt_length_of_exists ⟨c, hmem, beq_self_eq_true _⟩
  have hnone : behind.findIdx (·.value.id == parent) = behind.length := by
    refine List.findIdx_eq_length_of_false fun s hs => ?_
    simpa using hbehind s hs
  rw [rank, rank, hsplit, List.findIdx_append, if_pos hlt, List.findIdx_append, hnone,
    if_neg (Nat.lt_irrefl _)]
  exact hlt.trans_le (Nat.le_add_left ..)

end Document

namespace Build

variable [Scalar α]

mutual

private theorem map_flattenTree {γ : Type} {f : FlatNode α → γ} {g : ComponentTree α → γ}
    (h : ∀ parent depth c children, f (flatNode parent depth c children) = g (.node c children))
    (parent : Option String) (depth : Nat) : (t : ComponentTree α) →
    (flattenTree parent depth t).map f = (Tree.subtrees t).map g
  | .node c children => by
    rw [flattenTree, Tree.subtrees, List.map_cons, List.map_cons, map_flattenForest h, h]

/-- What the entries take from their components alone, in pre-order. -/
theorem map_flattenForest {γ : Type} {f : FlatNode α → γ} {g : ComponentTree α → γ}
    (h : ∀ parent depth c children, f (flatNode parent depth c children) = g (.node c children))
    (parent : Option String) (depth : Nat) : (ts : List (ComponentTree α)) →
    (flattenForest parent depth ts).map f = (Tree.forestSubtrees ts).map g
  | [] => rfl
  | t :: ts => by
    rw [flattenForest, Tree.forestSubtrees, List.map_append, List.map_append, map_flattenTree h,
      map_flattenForest h]

end

theorem length_nodes (doc : Document α) :
    (diagram doc).nodes.length = (Tree.forestSubtrees doc.roots).length := by
  have h := congrArg List.length
    (map_flattenForest (f := fun _ => ()) (g := fun _ => ()) (fun _ _ _ _ => rfl) none 0 doc.roots)
  rwa [List.length_map, List.length_map] at h

/-- An id stands for the entry of the last component that has it. -/
theorem node?_childIds (doc : Document α) (id : String) : ((diagram doc).node? id).map (·.childIds) =
    (doc.last? id).map fun t => t.children.map (·.value.id) := by
  have hlinks := map_flattenForest (f := fun n => (n.id, n.childIds))
    (g := fun t => (t.value.id, t.children.map (·.value.id))) (fun _ _ _ _ => rfl) none 0 doc.roots
  have h := congrArg (fun links => (links.reverse.find? (·.1 == id)).map Prod.snd) hlinks
  simp only [← List.map_reverse, List.find?_map, Option.map_map] at h
  exact h

theorem childrenOf_diagram (doc : Document α) (id : String) :
    ((diagram doc).childrenOf id).map (·.id) = doc.childIds id := by
  have hlinks := node?_childIds doc id
  rw [Diagram.childrenOf, Document.childIds]
  cases ht : doc.last? id with
  | none =>
    rw [ht, Option.map_none, Option.map_eq_none_iff] at hlinks
    rw [hlinks]
    rfl
  | some t =>
    rw [ht, Option.map_some, Option.map_eq_some_iff] at hlinks
    obtain ⟨n, hn, hchildren⟩ := hlinks
    rw [hn]
    simp only [hchildren]
    refine ids_entries fun c hc => ?_
    obtain ⟨s, hs, rfl⟩ := List.mem_map.mp hc
    rw [ids_diagram]
    exact id_mem_forestIds (Tree.children_forestSubtrees (Document.last?_some ht).1 s hs)

/-! ## What is reached from the roots -/

variable {doc : Document α}

/-- What is reached from a root is addressed. -/
theorem isAddressed_of_reach {r : FlatNode α} (hr : r ∈ (diagram doc).roots) {depth : Nat}
    {id : String} (h : id ∈ (diagram doc).reach depth r.id) : doc.IsAddressed id := by
  rcases Diagram.child_of_mem_reach h with rfl | ⟨parent, hparent⟩
  · have hid := List.mem_map_of_mem (f := (·.id)) hr
    rw [rootIds_diagram] at hid
    exact .inl hid
  · rw [childrenOf_diagram] at hparent
    obtain ⟨t, ht, -⟩ := Document.mem_childIds.mp hparent
    obtain ⟨hmem, rfl⟩ := Document.last?_some ht
    exact .inr ⟨t.value, List.mem_map_of_mem hmem, hparent⟩

/-- Fewer components stand behind a child of an entry. -/
theorem isRanked_diagram (doc : Document α) : (diagram doc).IsRanked doc.rank := by
  intro id c hc
  have hid := List.mem_map_of_mem (f := (·.id)) hc
  rw [childrenOf_diagram] at hid
  exact Document.rank_child hid

theorem rank_le_length (doc : Document α) (id : String) :
    doc.rank id ≤ (diagram doc).nodes.length :=
  (doc.rank_le id).trans_eq (length_nodes doc).symm

/-- If all ids are addressed, all are reached. -/
theorem exists_reach (h : ∀ c ∈ doc.components, doc.IsAddressed c.id) {c : Component α}
    (hc : c ∈ doc.components) : ∃ r ∈ (diagram doc).roots,
      c.id ∈ (diagram doc).reach ((diagram doc).nodes.length + 1) r.id := by
  -- What addresses an id has more components behind it.
  induction hn : (diagram doc).nodes.length - doc.rank c.id using Nat.strong_induction_on
    generalizing c with
  | _ n ih =>
    rcases h c hc with hroot | ⟨parent, hparent, hchild⟩
    · rw [← rootIds_diagram] at hroot
      obtain ⟨r, hr, hid⟩ := List.mem_map.mp hroot
      exact ⟨r, hr, hid ▸ List.mem_cons_self ..⟩
    · have hlt := Document.rank_child hchild
      have hle := rank_le_length doc parent.id
      obtain ⟨r, hr, hreach⟩ := ih _ (by omega) hparent rfl
      rw [← childrenOf_diagram] at hchild
      have hnext := Diagram.mem_reach_child hreach hchild
      have hroot := (rank_le_length doc r.id).trans (Nat.le_succ _)
      rw [Diagram.reach, (isRanked_diagram doc).descendantsTo_eq (hroot.trans (Nat.le_succ _)) hroot]
        at hnext
      exact ⟨r, hr, hnext⟩

end Build

end ComponentDiagram
