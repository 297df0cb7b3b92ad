import ComponentDiagram.Layout.Engine
import Mathlib

/-! What a layout reads of a diagram: ports, connectors, the tree of nodes, and the positions of
pinned roots. -/
namespace ComponentDiagram

variable {α : Type} [Scalar α]

/-- A root that its author has put somewhere. -/
def FlatNode.isPinnedRoot (n : FlatNode α) : Bool := n.pinned && n.parent.isNone

/-- An entry without what no layout reads. -/
def FlatNode.skeleton (n : FlatNode α) : FlatNode α :=
  { id := n.id
    label := ""
    x := if n.isPinnedRoot then n.x else Scalar.zero
    y := if n.isPinnedRoot then n.y else Scalar.zero
    parent := n.parent
    childIds := n.childIds
    pinned := n.pinned }

def Diagram.skeleton (d : Diagram α) : Diagram α :=
  { nodes := d.nodes.map FlatNode.skeleton, ports := d.ports, connectors := d.connectors }

namespace Diagram

variable (d : Diagram α)

@[simp] theorem length_skeleton : d.skeleton.nodes.length = d.nodes.length :=
  List.length_map _

theorem node?_skeleton (id : String) :
    d.skeleton.node? id = (d.node? id).map FlatNode.skeleton := by
  rw [node?, node?, skeleton, ← List.map_reverse, List.find?_map]
  rfl

theorem roots_skeleton : d.skeleton.roots = d.roots.map FlatNode.skeleton := by
  rw [roots, roots, skeleton, List.filter_map]
  rfl

theorem childrenOf_skeleton (id : String) :
    d.skeleton.childrenOf id = (d.childrenOf id).map FlatNode.skeleton := by
  rw [childrenOf, childrenOf, node?_skeleton]
  cases d.node? id with
  | none => rfl
  | some n =>
    rw [Option.map_some, List.map_filterMap]
    exact List.filterMap_congr fun child _ => node?_skeleton d child

end Diagram

/-- Diagrams in which the same ids are roots, and the same ids are below an id. -/
structure Diagram.SameTree (d e : Diagram α) : Prop where
  length : d.nodes.length = e.nodes.length
  roots : d.roots.map (·.id) = e.roots.map (·.id)
  children : ∀ id, (d.childrenOf id).map (·.id) = (e.childrenOf id).map (·.id)

theorem Diagram.sameTree_skeleton (d : Diagram α) : d.skeleton.SameTree d := by
  refine ⟨length_skeleton d, ?_, fun id => ?_⟩
  · rw [roots_skeleton, List.map_map]
    rfl
  · rw [childrenOf_skeleton, List.map_map]
    rfl

omit [Scalar α] in
theorem Diagram.SameTree.descendants {d e : Diagram α} (h : d.SameTree e) (id : String) :
    (d.descendants id).map (·.id) = (e.descendants id).map (·.id) := by
  have hbelow (f : Diagram α) (depth : Nat) (id : String) :
      (f.descendantsTo (depth + 1) id).map (·.id) = ((f.childrenOf id).map (·.id)).flatMap
        fun child => child :: (f.descendantsTo depth child).map (·.id) := by
    rw [descendantsTo, List.map_flatMap, List.flatMap_map]
    rfl
  rw [Diagram.descendants, Diagram.descendants, h.length]
  generalize e.nodes.length + 1 = depth
  induction depth generalizing id with
  | zero => rfl
  | succ depth ih =>
    rw [hbelow, hbelow, h.children]
    simp only [ih]

namespace Layout

section

variable {d e : Diagram α} (h : d.SameTree e)

include h

theorem shift_congr : shift d = shift e := by
  funext id boxes dx dy
  rw [shift, shift, h.descendants]

theorem sizeTo_congr (config : Config α) (x y : α) (depth : Nat) :
    sizeTo d config x y depth = sizeTo e config x y depth := by
  induction depth with
  | zero => rfl
  | succ depth ih =>
    funext id boxes
    have hpush : Stack.push d config x y = Stack.push e config x y := by
      funext size stack id
      rw [Stack.push, Stack.push, shift_congr h]
    rw [sizeTo, sizeTo, ih, hpush, h.children]

/-- Sizes depend on the tree of ids. -/
theorem sizeRoots_congr (config : Config α) : sizeRoots d config = sizeRoots e config := by
  have hroots (f : Diagram α) : sizeRoots f config = (f.roots.map (·.id)).foldl
      (fun boxes id => (sizeSubtree f config Scalar.zero Scalar.zero id boxes).1) [] := by
    rw [sizeRoots, List.foldl_map]
  have hsize : sizeSubtree d config = sizeSubtree e config := by
    funext x y id boxes
    rw [sizeSubtree, sizeSubtree, sizeTo_congr h, h.length]
  rw [hroots, hroots, hsize, h.roots]

end

variable (d : Diagram α) (config : Config α)

theorem shift_skeleton : shift d.skeleton = shift d := shift_congr d.sameTree_skeleton

theorem sizeRoots_skeleton : sizeRoots d.skeleton config = sizeRoots d config :=
  sizeRoots_congr d.sameTree_skeleton config

/-! ## Placing -/

theorem follow_skeleton (roots : List (FlatNode α)) :
    AnchorSearch.follow d.skeleton (roots.map FlatNode.skeleton) =
      AnchorSearch.follow d roots := by
  funext search request
  rw [AnchorSearch.follow, AnchorSearch.follow]
  simp only [List.any_map]
  rfl

theorem resolveAnchors_skeleton (roots : List (FlatNode α)) :
    resolveAnchors d.skeleton (roots.map FlatNode.skeleton) = resolveAnchors d roots := by
  rw [resolveAnchors, resolveAnchors, findAnchors, findAnchors, follow_skeleton]
  rfl

theorem griddedRoots_skeleton (roots : List (FlatNode α)) (anchors : Anchors α) :
    griddedRoots (roots.map FlatNode.skeleton) anchors =
      (griddedRoots roots anchors).map FlatNode.skeleton := by
  rw [griddedRoots, griddedRoots, List.filter_map]
  rfl

theorem place_skeleton : Placement.place d.skeleton = Placement.place d := by
  funext p id target
  rw [Placement.place, Placement.place, shift_skeleton]

theorem placePinned_skeleton (p : Placement α) {root : FlatNode α}
    (h : root.isPinnedRoot = true) :
    p.placePinned d.skeleton root.skeleton = p.placePinned d root := by
  have hx : root.skeleton.x = root.x := if_pos h
  have hy : root.skeleton.y = root.y := if_pos h
  rw [Placement.placePinned, Placement.placePinned, hx, hy]
  simp only [place_skeleton]
  rfl

theorem placeAnchored_skeleton :
    Placement.placeAnchored d.skeleton config = Placement.placeAnchored d config := by
  funext p anchor
  rw [Placement.placeAnchored, Placement.placeAnchored]
  simp only [place_skeleton]

/-- A layout reads no more than the skeleton of a diagram. -/
theorem compute_skeleton : compute d.skeleton config = compute d config := by
  have hpinned (p : Placement α) :
      (d.skeleton.roots.filter (·.pinned)).foldl (Placement.placePinned d.skeleton) p =
        (d.roots.filter (·.pinned)).foldl (Placement.placePinned d) p := by
    rw [Diagram.roots_skeleton, List.filter_map, List.foldl_map]
    refine List.foldl_ext _ _ _ fun p root hroot => placePinned_skeleton d p ?_
    obtain ⟨hmem, hp⟩ := List.mem_filter.mp hroot
    have hparent := (List.mem_filter.mp hmem).2
    rw [FlatNode.isPinnedRoot, hparent, Bool.and_true]
    exact hp
  rw [compute, compute, placeRoots, placeRoots]
  simp only [hpinned]
  rw [Diagram.roots_skeleton, resolveAnchors_skeleton, griddedRoots_skeleton, List.map_map,
    sizeRoots_skeleton, placeAnchored_skeleton]
  simp only [place_skeleton]
  rfl

/-- Diagrams with one skeleton have one layout. -/
theorem compute_congr {d e : Diagram α} (h : d.skeleton = e.skeleton) :
    compute d config = compute e config := by
  rw [← compute_skeleton d, h, compute_skeleton]

/-- Below the roots a layout reads nothing but the tree of ids. -/
theorem compute_congr_roots {d e : Diagram α} (h : d.SameTree e) (hroots : d.roots = e.roots)
    (hports : d.ports = e.ports) (hconnectors : d.connectors = e.connectors) :
    compute d config = compute e config := by
  have hplace : Placement.place d = Placement.place e := by
    funext p id target
    rw [Placement.place, Placement.place, shift_congr h]
  have hpinned : Placement.placePinned d = Placement.placePinned e := by
    funext p root
    rw [Placement.placePinned, Placement.placePinned, hplace]
  have hanchored : Placement.placeAnchored d config = Placement.placeAnchored e config := by
    funext p anchor
    rw [Placement.placeAnchored, Placement.placeAnchored, hplace]
  have hfollow : AnchorSearch.follow d = AnchorSearch.follow e := by
    funext roots search request
    rw [AnchorSearch.follow, AnchorSearch.follow]
    simp only [Diagram.port?, hports]
  have hresolve : resolveAnchors d = resolveAnchors e := by
    funext roots
    rw [resolveAnchors, resolveAnchors, findAnchors, findAnchors, hfollow, hconnectors]
  rw [compute, compute, placeRoots, placeRoots, sizeRoots_congr h, hroots, hresolve, hpinned,
    hanchored, hplace]

end Layout

end ComponentDiagram
