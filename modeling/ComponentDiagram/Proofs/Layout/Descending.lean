import ComponentDiagram.Proofs.Build.Reaching
import ComponentDiagram.Proofs.Layout.Shifting

/-! Following children from entry to entry. However ids are repeated, a child stands behind its parent
in the list of nodes, so every walk along the children comes to an end, and with it all that is done
by such walks. -/
namespace ComponentDiagram

variable {α : Type}

/-! ## Places -/

/-- The entry stands at a place in the list of nodes, and no later one has its id. -/
structure Diagram.IsLastAt (d : Diagram α) (n : FlatNode α) (place : Nat) : Prop where
  entry : d.nodes[place]? = some n
  last : ∀ later m, d.nodes[later]? = some m → m.id = n.id → later ≤ place

/-- The entry that an id stands for is the last one with the id. -/
theorem Diagram.exists_isLastAt {d : Diagram α} {id : String} {n : FlatNode α}
    (h : d.node? id = some n) : ∃ place, d.IsLastAt n place := by
  obtain ⟨-, behind, before, hsplit, hbehind⟩ := List.find?_eq_some_iff_append.mp h
  have hnodes : d.nodes = before.reverse ++ n :: behind.reverse := by
    rw [← List.reverse_reverse d.nodes, hsplit]
    simp
  refine ⟨before.reverse.length, ?_, fun later m hm hid => Nat.le_of_not_lt fun hlt => ?_⟩
  · rw [hnodes, List.getElem?_append_right (Nat.le_refl _), Nat.sub_self, List.getElem?_cons_zero]
  · obtain ⟨k, rfl⟩ := Nat.exists_eq_add_of_lt hlt
    rw [hnodes, List.getElem?_append_right (by omega), Nat.add_assoc, Nat.add_sub_cancel_left,
      List.getElem?_cons_succ] at hm
    have hne := hbehind m (List.mem_reverse.mp (List.mem_of_getElem? hm))
    rw [hid, id_of_node? h] at hne
    simp at hne

namespace Build

variable [Scalar α] {doc : Document α}

/-- The children that an entry names have entries behind it. -/
theorem childIds_behind {place : Nat} {n : FlatNode α}
    (h : (diagram doc).nodes[place]? = some n) {id : String} (hid : id ∈ n.childIds) :
    ∃ later m, place < later ∧ (diagram doc).nodes[later]? = some m ∧ m.id = id := by
  have hlinks := map_flattenForest (f := fun n => (n.id, n.childIds))
    (g := fun t => (t.value.id, t.children.map (·.value.id))) (fun _ _ _ _ => rfl) none 0 doc.roots
  -- Entries and components stand in one order, so a child is looked for among the components.
  have hat (k : Nat) := congrArg (·[k]?) hlinks
  simp only [List.getElem?_map] at hat
  obtain ⟨t, ht, hn⟩ := Option.map_eq_some_iff.mp ((hat place).symm.trans (congrArg _ h))
  obtain ⟨-, hchildren⟩ := Prod.mk.inj hn
  rw [← hchildren] at hid
  obtain ⟨c, hc, rfl⟩ := List.mem_map.mp hid
  obtain ⟨hlt, hget⟩ := List.getElem?_eq_some_iff.mp ht
  have hforest := (List.take_append_drop place (Tree.forestSubtrees doc.roots)).symm
  rw [List.drop_eq_getElem_cons hlt, hget] at hforest
  obtain ⟨k, hk⟩ := List.mem_iff_getElem?.mp (Tree.children_behind hforest c hc)
  rw [List.getElem?_drop] at hk
  obtain ⟨m, hm, hlink⟩ := Option.map_eq_some_iff.mp ((hat (place + 1 + k)).trans (congrArg _ hk))
  exact ⟨place + 1 + k, m, by omega, hm, (Prod.mk.inj hlink).1⟩

/-- The children of an entry stand behind it. -/
theorem childrenOf_behind {id : String} {n : FlatNode α} (h : (diagram doc).node? id = some n)
    {place : Nat} (hp : (diagram doc).IsLastAt n place) : ∀ child ∈ (diagram doc).childrenOf id,
    ∃ later, place < later ∧ (diagram doc).IsLastAt child later := by
  intro child hchild
  rw [Diagram.childrenOf, h] at hchild
  obtain ⟨key, hkey, hnode⟩ := List.mem_filterMap.mp hchild
  obtain ⟨later, hlater⟩ := Diagram.exists_isLastAt hnode
  obtain ⟨k, m, hk, hm, hid⟩ := childIds_behind hp.entry hkey
  exact ⟨later, hk.trans_le (hlater.last k m hm (hid.trans (id_of_node? hnode).symm)), hlater⟩

end Build

/-! ## Walks -/

namespace Diagram

/-- Walking over entries, and below each one along its children with no bound, has come to an end
and has listed these entries. -/
inductive Walks (d : Diagram α) : List (FlatNode α) → List (FlatNode α) → Prop
  | nil : d.Walks [] []
  | cons {n rest below after} : d.Walks (d.childrenOf n.id) below → d.Walks rest after →
      d.Walks (n :: rest) (n :: below ++ after)

variable {d : Diagram α}

theorem Walks.unique {ns found found' : List (FlatNode α)} (h : d.Walks ns found)
    (k : d.Walks ns found') : found = found' := by
  induction h generalizing found' with
  | nil =>
    cases k
    rfl
  | cons _ _ ihbelow ihafter =>
    cases k with
    | cons kbelow kafter => rw [ihbelow kbelow, ihafter kafter]

theorem walks_flatMap {ns : List (FlatNode α)} {below : FlatNode α → List (FlatNode α)}
    (h : ∀ n ∈ ns, d.Walks (d.childrenOf n.id) (below n)) :
    d.Walks ns (ns.flatMap fun n => n :: below n) := by
  induction ns with
  | nil => exact .nil
  | cons n ns ih =>
    obtain ⟨hn, hns⟩ := List.forall_mem_cons.mp h
    exact .cons hn (ih hns)

/-- A walk comes to an end within the bound that its number gives. -/
theorem IsRanked.walks {rank : String → Nat} (h : d.IsRanked rank) {depth : Nat} {id : String}
    (hd : rank id ≤ depth) : d.Walks (d.childrenOf id) (d.descendantsTo depth id) := by
  induction depth generalizing id with
  | zero =>
    rw [h.childrenOf_eq_nil (Nat.le_zero.mp hd)]
    exact .nil
  | succ depth ih =>
    rw [descendantsTo]
    refine walks_flatMap fun c hc => ih ?_
    have hlt := h id c hc
    omega

/-- Moving a node with what a walk finds below it has come to an end. -/
inductive Translates [Scalar α] (d : Diagram α) (id : String) (dx dy : α) : Diagram α → Prop
  | missing : d.node? id = none → Translates d id dx dy d
  | moved {n below} : d.node? id = some n → d.Walks (d.childrenOf id) below →
      Translates d id dx dy ((n :: below).foldl
        (fun moved m => moved.modifyNode m.id fun k => { k with x := k.x + dx, y := k.y + dy }) d)

end Diagram

namespace Layout

variable [Scalar α]

/-- Moving the boxes of a node and of what a walk finds below it has come to an end. -/
inductive Shifts (d : Diagram α) (id : String) (boxes : Boxes α) (dx dy : α) : Boxes α → Prop
  | still : (dx == Scalar.zero && dy == Scalar.zero) = true → Shifts d id boxes dx dy boxes
  | moved {below} : (dx == Scalar.zero && dy == Scalar.zero) = false →
      d.Walks (d.childrenOf id) below →
      Shifts d id boxes dx dy ((id :: below.map (·.id)).foldl
        (fun moved key => moved.translate key dx dy) boxes)

/-- The box of a component around a stack of its children. -/
def Stack.around (config : Config α) (x y : α) (stack : Stack α) (ids : List String) : Box α :=
  match ids.filterMap stack.boxes.get? with
  | first :: others => enclose config first others
  | [] => leafBox config x y

/-- Sizing nodes one after the other, and each one by its children with no bound, has come to an
end with all of them stacked. -/
inductive Stacks (d : Diagram α) (config : Config α) (x y : α) :
    List String → Stack α → Stack α → Prop
  | nil {stack} : Stacks d config x y [] stack stack
  | cons {id ids stack below moved final box} :
      Stacks d config x y ((d.childrenOf id).map (·.id)) ⟨stack.boxes, none⟩ below →
      box = below.around config x y ((d.childrenOf id).map (·.id)) →
      Shifts d id (below.boxes.put id box) (x - box.x) (stack.centre config y box - box.y) moved →
      Stacks d config x y ids ⟨moved, moved.get? id⟩ final →
      Stacks d config x y (id :: ids) stack final

/-- Sizing a node by its children, with no bound, has come to an end with these boxes and with the
node's own. -/
inductive Sizes (d : Diagram α) (config : Config α) (x y : α) (id : String) (boxes : Boxes α) :
    Boxes α × Box α → Prop
  | close {below box} :
      Stacks d config x y ((d.childrenOf id).map (·.id)) ⟨boxes, none⟩ below →
      box = below.around config x y ((d.childrenOf id).map (·.id)) →
      Sizes d config x y id boxes (below.boxes.put id box, box)

section

variable {d : Diagram α} {config : Config α} {x y : α}

theorem Shifts.unique {id : String} {boxes moved moved' : Boxes α} {dx dy : α}
    (h : Shifts d id boxes dx dy moved) (k : Shifts d id boxes dx dy moved') : moved = moved' := by
  cases h with
  | still hz =>
    cases k with
    | still => rfl
    | moved kz => rw [hz] at kz; cases kz
  | moved hz hw =>
    cases k with
    | still kz => rw [hz] at kz; cases kz
    | moved _ kw => rw [hw.unique kw]

theorem Stacks.unique {ids : List String} {stack final final' : Stack α}
    (h : Stacks d config x y ids stack final) (k : Stacks d config x y ids stack final') :
    final = final' := by
  induction h generalizing final' with
  | nil =>
    cases k
    rfl
  | cons _ hbox hshift _ ihbelow ihafter =>
    cases k with
    | cons kbelow kbox kshift kafter =>
      obtain rfl := ihbelow kbelow
      obtain rfl := hbox.trans kbox.symm
      obtain rfl := hshift.unique kshift
      exact ihafter kafter

theorem Sizes.unique {id : String} {boxes : Boxes α} {sized sized' : Boxes α × Box α}
    (h : Sizes d config x y id boxes sized) (k : Sizes d config x y id boxes sized') :
    sized = sized' := by
  cases h with
  | close hs hbox =>
    cases k with
    | close ks kbox =>
      obtain rfl := hs.unique ks
      rw [hbox, kbox]

end

end Layout

/-! ## Every walk ends -/

namespace Build

variable [Scalar α]

theorem walks_descendants (doc : Document α) (id : String) : (diagram doc).Walks
    ((diagram doc).childrenOf id) ((diagram doc).descendants id) :=
  (isRanked_diagram doc).walks ((rank_le_length doc id).trans (Nat.le_succ _))

theorem walks_iff {doc : Document α} {id : String} {found : List (FlatNode α)} :
    (diagram doc).Walks ((diagram doc).childrenOf id) found ↔
      found = (diagram doc).descendants id := by
  refine ⟨fun h => h.unique (walks_descendants doc id), ?_⟩
  rintro rfl
  exact walks_descendants doc id

theorem translates_iff {doc : Document α} {id : String} {dx dy : α} {moved : Diagram α} :
    (diagram doc).Translates id dx dy moved ↔ moved = (diagram doc).translate id dx dy := by
  rw [Diagram.translate]
  constructor
  · rintro (hn | ⟨hn, hw⟩)
    · rw [hn]
    · rw [hn, walks_iff.mp hw]
  · rintro rfl
    cases hn : (diagram doc).node? id with
    | none => exact .missing hn
    | some n => exact .moved hn (walks_descendants doc id)

end Build

namespace Layout

variable [Scalar α]

theorem shifts_shift (doc : Document α) (id : String) (boxes : Boxes α) (dx dy : α) :
    Shifts (Build.diagram doc) id boxes dx dy (shift (Build.diagram doc) id boxes dx dy) := by
  rw [shift]
  split
  next hz => exact .still hz
  next hz => exact .moved (Bool.eq_false_iff.mpr hz) (Build.walks_descendants doc id)

theorem shifts_iff {doc : Document α} {id : String} {boxes moved : Boxes α} {dx dy : α} :
    Shifts (Build.diagram doc) id boxes dx dy moved ↔
      moved = shift (Build.diagram doc) id boxes dx dy := by
  refine ⟨fun h => h.unique (shifts_shift doc id boxes dx dy), ?_⟩
  rintro rfl
  exact shifts_shift doc id boxes dx dy

section

variable {doc : Document α} {config : Config α} {x y : α}

/-- Nodes are stacked if each one is sized by its children. -/
theorem stacks_foldl {depth : Nat} {ids : List String}
    (h : ∀ id ∈ ids, ∀ boxes, Sizes (Build.diagram doc) config x y id boxes
      (sizeTo (Build.diagram doc) config x y depth id boxes)) (stack : Stack α) :
    Stacks (Build.diagram doc) config x y ids stack (ids.foldl
      (Stack.push (Build.diagram doc) config x y (sizeTo (Build.diagram doc) config x y depth))
      stack) := by
  induction ids generalizing stack with
  | nil => exact .nil
  | cons id ids ih =>
    obtain ⟨hid, hids⟩ := List.forall_mem_cons.mp h
    have hsized := hid stack.boxes
    generalize hs : sizeTo (Build.diagram doc) config x y depth id stack.boxes = sized at hsized
    cases hsized with
    | close hbelow hbox =>
      rw [List.foldl_cons, Stack.push_eq _ config x y hs]
      exact .cons hbelow hbox (shifts_shift ..) (ih hids _)

theorem sizes_sizeTo {depth : Nat} {id : String} (hd : doc.rank id ≤ depth) (boxes : Boxes α) :
    Sizes (Build.diagram doc) config x y id boxes
      (sizeTo (Build.diagram doc) config x y depth id boxes) := by
  induction depth generalizing id boxes with
  | zero =>
    -- With no step left there are no children, and both sides make a leaf.
    have hnone := (Build.isRanked_diagram doc).childrenOf_eq_nil (Nat.le_zero.mp hd)
    have hstacks : Stacks (Build.diagram doc) config x y
        (((Build.diagram doc).childrenOf id).map (·.id)) ⟨boxes, none⟩ ⟨boxes, none⟩ := by
      rw [hnone]
      exact .nil
    refine .close hstacks ?_
    rw [hnone]
    rfl
  | succ depth ih =>
    refine .close (stacks_foldl (fun key hkey bs => ih ?_ bs) ⟨boxes, none⟩) rfl
    obtain ⟨c, hc, rfl⟩ := List.mem_map.mp hkey
    have hlt := Build.isRanked_diagram doc id c hc
    omega

theorem sizes_iff {id : String} {boxes : Boxes α} {sized : Boxes α × Box α} :
    Sizes (Build.diagram doc) config x y id boxes sized ↔
      sized = sizeSubtree (Build.diagram doc) config x y id boxes := by
  have hsizes : Sizes (Build.diagram doc) config x y id boxes
      (sizeSubtree (Build.diagram doc) config x y id boxes) :=
    sizes_sizeTo ((Build.rank_le_length doc id).trans (Nat.le_succ _)) boxes
  refine ⟨fun h => h.unique hsizes, ?_⟩
  rintro rfl
  exact hsizes

end

/-- However ids are repeated, the children of a node stand behind it in the list of nodes. With no
bound on the depth, listing what lies below a node, moving it and sizing it come to an end, with
the same result as within the bound. -/
theorem diagram_descends (doc : Document α) :
    (∀ id n, (Build.diagram doc).node? id = some n → ∃ place,
      (Build.diagram doc).IsLastAt n place ∧ ∀ child ∈ (Build.diagram doc).childrenOf id,
        ∃ later, place < later ∧ (Build.diagram doc).IsLastAt child later) ∧
    (∀ id found, (Build.diagram doc).Walks ((Build.diagram doc).childrenOf id) found ↔
      found = (Build.diagram doc).descendants id) ∧
    (∀ id dx dy moved, (Build.diagram doc).Translates id dx dy moved ↔
      moved = (Build.diagram doc).translate id dx dy) ∧
    (∀ config x y id boxes sized, Sizes (Build.diagram doc) config x y id boxes sized ↔
      sized = sizeSubtree (Build.diagram doc) config x y id boxes) ∧
    ∀ id boxes dx dy moved, Shifts (Build.diagram doc) id boxes dx dy moved ↔
      moved = shift (Build.diagram doc) id boxes dx dy := by
  refine ⟨fun id n hn => ?_, fun _ _ => Build.walks_iff, fun _ _ _ _ => Build.translates_iff,
    fun _ _ _ _ _ _ => sizes_iff, fun _ _ _ _ _ => shifts_iff⟩
  obtain ⟨place, hplace⟩ := Diagram.exists_isLastAt hn
  exact ⟨place, hplace, Build.childrenOf_behind hn hplace⟩

end Layout

end ComponentDiagram
