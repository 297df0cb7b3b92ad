import ComponentDiagram.Proofs.Build.Entries
import ComponentDiagram.Proofs.Build.Routing

/-! The forest in the flat view. Followed from the roots through the children, the entries are those of
the components of the document, in the same places, with the ports that are declared there. -/
namespace ComponentDiagram

variable {α : Type}

namespace Diagram

theorem mem_of_childrenOf {d : Diagram α} {id : String} {n : FlatNode α}
    (h : n ∈ d.childrenOf id) : n ∈ d.nodes := by
  rw [childrenOf] at h
  split at h
  · obtain ⟨x, -, hx⟩ := List.mem_filterMap.mp h
    exact mem_of_node? hx
  · cases h

theorem mem_of_descendantsTo {d : Diagram α} {depth : Nat} {id : String} {n : FlatNode α}
    (h : n ∈ d.descendantsTo depth id) : n ∈ d.nodes := by
  induction depth generalizing id with
  | zero => cases h
  | succ depth ih =>
    obtain ⟨m, hm, hn⟩ := List.mem_flatMap.mp h
    rcases List.mem_cons.mp hn with rfl | hn
    · exact mem_of_childrenOf hm
    · exact ih hn

/-- The tree that is found by following the children of a node, to a bounded depth. -/
def treeTo (d : Diagram α) : Nat → FlatNode α → Tree (FlatNode α)
  | 0, n => .node n []
  | depth + 1, n => .node n ((d.childrenOf n.id).map (d.treeTo depth))

/-- The trees that are found from the nodes without a parent. -/
def forestTo (d : Diagram α) (depth : Nat) : List (Tree (FlatNode α)) := d.roots.map (d.treeTo depth)

end Diagram

/-! ## What is shown of a component -/

/-- What both views show of a component: an offset that is not given counts as zero. -/
structure Outline (α : Type) where
  id : String
  label : String
  ports : List (FlatPort α)

namespace Outline

variable [Scalar α]

def ofComponent (c : Component α) : Outline α :=
  ⟨c.id, c.label, c.ports.map (Build.flatPort c.id)⟩

/-- A port with this id is declared on its owner. -/
def isDeclared (doc : Document α) (p : FlatPort α) : Bool :=
  doc.components.any fun c => c.id == p.owner && c.ports.any (·.id == p.id)

/-- A node with those of its ports that a document declares. -/
def ofNode (doc : Document α) (d : Diagram α) (n : FlatNode α) : Outline α :=
  ⟨n.id, n.label, (d.portsOf n.id).filter (isDeclared doc)⟩

/-- With different ids, the ports with an owner are those of one component. -/
theorem filter_owner {cs : List (Component α)} (h : (cs.map (·.id)).Nodup) {c : Component α}
    (hc : c ∈ cs) : (cs.flatMap fun b => b.ports.map (Build.flatPort b.id)).filter
      (·.owner == c.id) = c.ports.map (Build.flatPort c.id) := by
  have hother (b : Component α) (hb : b.id ≠ c.id) :
      (b.ports.map (Build.flatPort b.id)).filter (·.owner == c.id) = [] := by
    simp [Build.flatPort, hb]
  induction cs with
  | nil => cases hc
  | cons b cs ih =>
    rw [List.map_cons, List.nodup_cons, List.mem_map] at h
    rw [List.flatMap_cons, List.filter_append]
    rcases List.mem_cons.mp hc with rfl | hc
    · have hrest : (cs.flatMap fun b => b.ports.map (Build.flatPort b.id)).filter
          (·.owner == c.id) = [] := by
        rw [List.filter_flatMap, List.flatMap_eq_nil_iff]
        exact fun b hb => hother b fun he => h.1 ⟨b, hb, he⟩
      rw [hrest, List.append_nil]
      simp [Build.flatPort]
    · rw [hother b fun he => h.1 ⟨c, hc, he.symm⟩, ih h.2 hc, List.nil_append]

/-- A port that routing makes is not declared. -/
theorem isDeclared_new {doc : Document α} {p : FlatPort α} (h : Build.IsNew (Build.flatten doc) p) :
    isDeclared doc p = false := by
  cases hp : isDeclared doc p with
  | false => rfl
  | true =>
    obtain ⟨c, hc, hdeclared⟩ := List.any_eq_true.mp hp
    obtain ⟨howner, hports⟩ := Bool.and_eq_true_iff.mp hdeclared
    obtain ⟨q, hq, hid⟩ := List.any_eq_true.mp hports
    have hmem : Build.flatPort c.id q ∈ (Build.flatten doc).ports :=
      List.mem_flatMap.mpr ⟨c, hc, List.mem_map_of_mem hq⟩
    have hnone := List.find?_eq_none.mp h.fresh _ hmem
    exact absurd (Bool.and_eq_true_iff.mpr ⟨howner, hid⟩) hnone

/-- The entry of a component shows what the component shows. -/
theorem ofNode_entry {doc : Document α} (h : (doc.components.map (·.id)).Nodup)
    {t : ComponentTree α} (ht : t ∈ Tree.forestSubtrees doc.roots) :
    ofNode doc (Build.diagram doc) (doc.entry t) = ofComponent t.value := by
  have hc : t.value ∈ doc.components := List.mem_map_of_mem ht
  have hdeclared : (t.value.ports.map (Build.flatPort t.value.id)).filter (isDeclared doc) =
      t.value.ports.map (Build.flatPort t.value.id) := by
    rw [List.filter_eq_self]
    intro p hp
    obtain ⟨q, hq, rfl⟩ := List.mem_map.mp hp
    refine List.any_eq_true.mpr ⟨t.value, hc, Bool.and_eq_true_iff.mpr ⟨beq_self_eq_true _, ?_⟩⟩
    exact List.any_eq_true.mpr ⟨q, hq, beq_self_eq_true _⟩
  have hnew : ∀ ps : List (FlatPort α), (∀ p ∈ ps, Build.IsNew (Build.flatten doc) p) →
      (ps.filter (·.owner == t.value.id)).filter (isDeclared doc) = [] := by
    intro ps hps
    rw [List.filter_eq_nil_iff]
    intro p hp
    rw [isDeclared_new (hps p (List.mem_filter.mp hp).1)]
    exact Bool.false_ne_true
  rw [ofNode, ofComponent, Diagram.portsOf, Build.diagram_ports, List.filter_append,
    List.filter_append, Document.entry_id, hnew _ (Build.routeAll_isNew _ _), List.append_nil]
  have hown : (Build.flatten doc).ports.filter (·.owner == t.value.id) =
      t.value.ports.map (Build.flatPort t.value.id) := filter_owner h hc
  rw [hown, hdeclared]
  rfl

end Outline

/-! ## Rebuilding the forest -/

variable [Scalar α]

section

variable {doc : Document α} (h : (doc.components.map (·.id)).Nodup)
include h

theorem roots_entries : (Build.diagram doc).roots = doc.roots.map doc.entry := by
  refine Document.eq_entries h (fun n hn => (List.mem_filter.mp hn).1) (fun t ht => ?_)
    (flatView_diagram h).roots
  exact Tree.mem_forestSubtrees_of_mem ht

theorem childrenOf_entries {t : ComponentTree α} (ht : t ∈ Tree.forestSubtrees doc.roots) :
    (Build.diagram doc).childrenOf t.value.id = t.children.map doc.entry :=
  Document.eq_entries h (fun _ hn => Diagram.mem_of_childrenOf hn)
    (Tree.children_forestSubtrees ht) ((flatView_diagram h).children t ht)

/-- Following the children of an entry leads through the tree of its component. -/
theorem map_treeTo {depth : Nat} {t : ComponentTree α} (ht : t ∈ Tree.forestSubtrees doc.roots)
    (hdepth : (forestIds t.children).length ≤ depth) :
    ((Build.diagram doc).treeTo depth (doc.entry t)).map (Outline.ofNode doc (Build.diagram doc)) =
      t.map Outline.ofComponent := by
  induction depth generalizing t with
  | zero =>
    have hvalue := Outline.ofNode_entry h ht
    obtain ⟨c, children⟩ := t
    have hids : children.map (·.value.id) = [] := by
      have hnil := List.length_eq_zero_iff.mp (Nat.le_zero.mp hdepth)
      exact List.sublist_nil.mp (hnil ▸ rootIds_sublist children)
    rw [List.map_eq_nil_iff] at hids
    subst hids
    exact congrArg (Tree.node · []) hvalue
  | succ depth ih =>
    have hbelow : (t.children.map fun c => (Build.diagram doc).treeTo depth (doc.entry c)).map
        (Tree.map (Outline.ofNode doc (Build.diagram doc))) =
          t.children.map (Tree.map Outline.ofComponent) := by
      rw [List.map_map]
      refine List.map_congr_left fun c hc => ih (Tree.children_forestSubtrees ht c hc) ?_
      have hlt := FlatView.child_length_lt hc
      omega
    rw [Diagram.treeTo, Document.entry_id, childrenOf_entries h ht, List.map_map, Tree.map,
      Outline.ofNode_entry h ht, Tree.forestMap_eq_map, Function.comp_def, hbelow]
    obtain ⟨c, children⟩ := t
    rw [Tree.map, Tree.forestMap_eq_map]
    rfl

theorem map_forestTo {depth : Nat} (hdepth : (Build.diagram doc).nodes.length ≤ depth) :
    Tree.forestMap (Outline.ofNode doc (Build.diagram doc)) ((Build.diagram doc).forestTo depth) =
      Tree.forestMap Outline.ofComponent doc.roots := by
  rw [Diagram.forestTo, roots_entries h, Tree.forestMap_eq_map, Tree.forestMap_eq_map,
    List.map_map, List.map_map]
  refine List.map_congr_left fun t ht => map_treeTo h (Tree.mem_forestSubtrees_of_mem ht) ?_
  have hlength := (flatView_diagram h).length_le (Tree.mem_forestSubtrees_of_mem ht)
  rw [treeIds, List.length_cons] at hlength
  omega

theorem descendants_entries {t : ComponentTree α} (ht : t ∈ Tree.forestSubtrees doc.roots) :
    (Build.diagram doc).descendants t.value.id =
      (Tree.forestSubtrees t.children).map doc.entry := by
  refine Document.eq_entries h (fun _ hn => Diagram.mem_of_descendantsTo hn) (fun s hs => ?_) ?_
  · exact Tree.forestSubtrees_below ht s hs
  · rw [(flatView_diagram h).descendants_ids ht, forestIds, Tree.values, List.map_map]
    rfl

end

/-- A component with a declared port and another one inside, and an arrow from outside that makes a
second port. -/
def portedPair : Document Rat :=
  { roots := [
      .node { id := "a", label := "A", ports := [{ id := "p", side := .left }] }
        [.node { id := "b", label := "B" } []],
      .node { id := "c", label := "C" } []],
    connectors := [{
      kind := .plain .short, id := "e", source := ⟨"c", none⟩, target := ⟨"b", some "q"⟩ }] }

end ComponentDiagram
