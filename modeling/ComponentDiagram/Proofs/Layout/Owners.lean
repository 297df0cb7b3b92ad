import ComponentDiagram.Proofs.Build.Links
import ComponentDiagram.Proofs.Layout.Coverage
import ComponentDiagram.Proofs.Layout.Resolution

/-! Roots are placed one after the other, each with what lies below it. Where nothing that lies below
a root has the id of a root, the owner of an anchor is in its final place when it is read. -/
namespace ComponentDiagram

open Relation

variable {α : Type}

namespace Diagram

/-- No component holds one with the id of a root. -/
def HasOuterRoots (d : Diagram α) : Prop := ∀ m ∈ d.nodes, ∀ r ∈ d.roots, r.id ∉ m.childIds

instance (d : Diagram α) : Decidable d.HasOuterRoots :=
  inferInstanceAs (Decidable (∀ m ∈ d.nodes, ∀ r ∈ d.roots, r.id ∉ m.childIds))

theorem IsLinked.hasOuterRoots {d : Diagram α} (h : d.IsLinked) : d.HasOuterRoots := by
  intro m hm r hr hchild
  obtain ⟨hmem, hroot⟩ := List.mem_filter.mp hr
  obtain ⟨n, hn, hid, hparent, -⟩ := h.child m hm r.id hchild
  rw [List.inj_on_of_nodup_map h.distinct hn hmem hid] at hparent
  rw [hparent] at hroot
  cases hroot

/-- What lies below a node is a child. -/
theorem child_of_mem_descendantsTo {d : Diagram α} {depth : Nat} {id : String} {n : FlatNode α}
    (h : n ∈ d.descendantsTo depth id) : ∃ m ∈ d.nodes, n.id ∈ m.childIds := by
  induction depth generalizing id with
  | zero => cases h
  | succ depth ih =>
    obtain ⟨c, hc, hn⟩ := List.mem_flatMap.mp h
    rcases List.mem_cons.mp hn with rfl | hn
    · rw [childrenOf] at hc
      split at hc
      · rename_i m hm
        obtain ⟨x, hx, hnode⟩ := List.mem_filterMap.mp hc
        exact ⟨m, mem_of_node? hm, id_of_node? hnode ▸ hx⟩
      · cases hc
    · exact ih hn

theorem HasOuterRoots.not_below {d : Diagram α} (h : d.HasOuterRoots) {r : FlatNode α}
    (hr : r ∈ d.roots) (id : String) : r.id ∉ (d.descendants id).map (·.id) := by
  intro hmem
  obtain ⟨n, hn, hid⟩ := List.mem_map.mp hmem
  obtain ⟨m, hm, hchild⟩ := child_of_mem_descendantsTo hn
  exact h m hm r hr (hid ▸ hchild)

end Diagram

namespace Layout

variable [Scalar α]

/-! ## Placing one root -/

theorem Boxes.get?_translate_of_not_mem {moved : List String} {key : String} (h : key ∉ moved)
    (boxes : Boxes α) (dx dy : α) :
    (moved.foldl (fun bs id => bs.translate id dx dy) boxes).get? key = boxes.get? key := by
  induction moved generalizing boxes with
  | nil => rfl
  | cons id moved ih =>
    rw [List.mem_cons, not_or] at h
    rw [List.foldl_cons, ih h.2, get?_translate, if_neg h.1]

section

variable {d : Diagram α} (h : d.HasOuterRoots) {r : FlatNode α} (hr : r ∈ d.roots)

include h hr

/-- Moving what has another id leaves a root in its place. -/
theorem get?_shift_root {id : String} (hne : r.id ≠ id) (boxes : Boxes α) (dx dy : α) :
    (shift d id boxes dx dy).get? r.id = boxes.get? r.id := by
  rw [shift]
  split
  · rfl
  · refine Boxes.get?_translate_of_not_mem ?_ boxes dx dy
    rw [List.mem_cons, not_or]
    exact ⟨hne, h.not_below hr id⟩

theorem get?_placeAnchored {config : Config α} {a : Anchor α} (hne : r.id ≠ a.node)
    {p p' : Placement α} (hp : p.placeAnchored d config a = some p') :
    p'.boxes.get? r.id = p.boxes.get? r.id := by
  rcases placeAnchored_cases hp with ⟨rfl, -⟩ | ⟨_, last, -, rfl⟩
  · rfl
  · rw [Placement.place]
    split
    · exact get?_shift_root h hr hne ..
    · rfl

/-- Placing others leaves a root in its place. -/
theorem get?_placeAllAnchored {config : Config α} {anchors : Anchors α}
    (hne : r.id ∉ anchors.map (·.node)) {p q : Placement α}
    (hp : anchors.foldlM (Placement.placeAnchored d config) p = some q) :
    q.boxes.get? r.id = p.boxes.get? r.id := by
  induction anchors generalizing p with
  | nil =>
    cases hp
    rfl
  | cons a anchors ih =>
    rw [List.map_cons, List.mem_cons, not_or] at hne
    obtain ⟨p', hstep, hrest⟩ := Option.bind_eq_some_iff.mp hp
    rw [ih hne.2 hrest, get?_placeAnchored h hr hne.1 hstep]

end

/-- Before an anchor is placed, every root has a box. -/
theorem exists_box_placeBefore {d : Diagram α} {r : FlatNode α} (hr : r ∈ d.roots)
    {config : Config α} {before : Anchors α} {p : Placement α}
    (hp : placeBefore d config before = some p) : ∃ box, p.boxes.get? r.id = some box := by
  rw [← Boxes.mem_ids, ids_placeAllAnchored hp, ids_placeUnanchored, mem_ids_sizeRoots]
  exact ⟨r, hr, List.mem_cons_self ..⟩

/-- The owner of an anchor is in its final place when it is read. -/
theorem owner_final {d : Diagram α} (h : d.HasOuterRoots) {before after : Anchors α} {a : Anchor α}
    (hsplit : (resolveAnchors d d.roots).anchors = before ++ a :: after) {config : Config α}
    {boxes : Boxes α} (hboxes : compute d config = some boxes) :
    ∃ p owner, placeBefore d config before = some p ∧ p.boxes.get? a.owner = some owner ∧
      boxes.get? a.owner = some owner := by
  have hproper := resolveAnchors_isProper d d.roots
  obtain ⟨r, hr, howner⟩ := (hproper.proper a (hsplit ▸ by simp)).owner
  have hlater : r.id ∉ (a :: after).map (·.node) :=
    howner ▸ (isSorted_orderAnchors _).ordered.owner_not_later hproper.nodup hsplit
  obtain ⟨p, q, hp, hq, rfl⟩ := (compute_eq_some hsplit).mp hboxes
  obtain ⟨owner, hbox⟩ := exists_box_placeBefore hr hp
  rw [howner] at hbox
  refine ⟨p, owner, hp, hbox, ?_⟩
  rw [← howner, get?_placeAllAnchored h hr hlater hq, howner, hbox]

/-! ## Resolution -/

omit [Scalar α] in
/-- The chain of owners of a candidate leads through roots. -/
theorem exists_root {d : Diagram α} {roots : List (FlatNode α)} {node last : String}
    (h : TransGen (findAnchors d roots).anchors.LeadsTo node last) : ∃ r ∈ roots, r.id = last := by
  obtain ⟨n, -, a, ha, rfl⟩ := TransGen.tail'_iff.mp h
  exact ((findAnchors_isProper d roots).proper a (Anchors.get?_some ha).1).owner

/-- Each root is a candidate at most once. Settling a candidate ends without meeting the bound on
the path of owners. Those candidates are kept, as they are, whose chain of owners ends at a root that
is no candidate; the others lead into a circle. What is kept comes after its owner, if that is kept,
too. So the owner of an anchor is in its final place when it is read, as long as no component holds
one with the id of a root. -/
theorem resolveAnchors_ordered (d : Diagram α) (roots : List (FlatNode α)) :
    let candidates := (findAnchors d roots).anchors
    let order := (resolveAnchors d roots).anchors
    (candidates.map (·.node)).Nodup ∧
    (∀ node settled, candidates.Settles [] node settled
      (settle candidates (candidates.length + 1) [] node settled)) ∧
    (order.map (·.node)).Nodup ∧
    (∀ a, a ∈ order ↔ a ∈ candidates ∧
      ∃ r ∈ roots, candidates.has r.id = false ∧ TransGen candidates.LeadsTo a.node r.id) ∧
    (∀ a ∈ candidates, a ∉ order ↔ candidates.IsCircular a.node) ∧
    (∀ (before : Anchors α) a after, order = before ++ a :: after →
      order.has a.owner = true → before.has a.owner = true) ∧
    (d.HasOuterRoots → ∀ config boxes, compute d config = some boxes → ∀ before a after,
      (resolveAnchors d d.roots).anchors = before ++ a :: after →
      ∃ p owner, placeBefore d config before = some p ∧ p.boxes.get? a.owner = some owner ∧
        boxes.get? a.owner = some owner) := by
  intro candidates order
  have hcandidates := findAnchors_isProper d roots
  have horder := resolveAnchors_isProper d roots
  have hordered := (isSorted_orderAnchors candidates).ordered
  refine ⟨hcandidates.nodup, settles_start candidates, horder.nodup, fun a => ⟨fun ha => ?_, ?_⟩,
    fun a ha => not_mem_orderAnchors hcandidates.nodup ha, ?_, ?_⟩
  · obtain ⟨last, hchain, hlast⟩ := hordered.ends ha
    obtain ⟨r, hr, rfl⟩ := exists_root hchain
    exact ⟨(Anchors.get?_some (hordered.get? ha)).1, r, hr, hlast, hchain⟩
  · rintro ⟨ha, r, -, hlast, hchain⟩
    exact (mem_orderAnchors hcandidates.nodup ha).mpr ⟨r.id, hchain, hlast⟩
  · intro before a after hsplit hkept
    rw [hsplit, Anchors.has_append] at hkept
    refine hkept.resolve_right fun hlater => ?_
    exact hordered.owner_not_later horder.nodup hsplit (Anchors.has_iff.mp hlater)
  · intro hroots config boxes hboxes before a after hsplit
    exact owner_final hroots hsplit hboxes

/-- A component that is anchored to one that is anchored itself. -/
def anchoredChain : Document Rat :=
  { roots := [.node { id := "a" } [.node { id := "x" } []],
      .node { id := "b" } [.node { id := "y" } []], .node { id := "c" } []]
    connectors := [
      { kind := .plain .short, id := "edge-0", source := ⟨"c", none⟩, target := ⟨"y", none⟩ },
      { kind := .plain .short, id := "edge-1", source := ⟨"b", none⟩, target := ⟨"x", none⟩ }] }

theorem resolveAnchors_ordered_anchoredChain :
    let d := Build.diagram anchoredChain
    d.HasOuterRoots ∧ (findAnchors d d.roots).anchors.map (·.node) = ["c", "b"] ∧
      (resolveAnchors d d.roots).anchors.map (·.node) = ["b", "c"] ∧
      ∃ boxes, compute d .standard = some boxes ∧ ∀ a ∈ (resolveAnchors d d.roots).anchors,
        ∃ owner, boxes.get? a.owner = some owner := by
  intro d
  have hroots : d.HasOuterRoots := by decide +kernel
  obtain ⟨-, -, -, -, -, -, hfinal⟩ := resolveAnchors_ordered d d.roots
  obtain ⟨boxes, hboxes⟩ := exists_compute standard_spacing d
  refine ⟨hroots, by decide +kernel, by decide +kernel, boxes, hboxes, fun a ha => ?_⟩
  obtain ⟨before, after, hsplit⟩ := List.append_of_mem ha
  obtain ⟨_, owner, -, -, howner⟩ := hfinal hroots .standard boxes hboxes before a after hsplit
  exact ⟨owner, howner⟩

/-- A component that is anchored to one whose id it uses inside. -/
def heldOwner : Document Rat :=
  { roots := [.node { id := "b" } [.node { id := "a" } []],
      .node { id := "a" } [.node { id := "x" } []]]
    connectors := [
      { kind := .plain .short, id := "edge-0", source := ⟨"b", none⟩, target := ⟨"x", none⟩ }] }

/-- Placing it takes the owner along. -/
theorem owner_moves_heldOwner :
    let d := Build.diagram heldOwner
    ∃ boxes before a after p owner, compute d .standard = some boxes ∧
      (resolveAnchors d d.roots).anchors = before ++ a :: after ∧
      placeBefore d .standard before = some p ∧ p.boxes.get? a.owner = some owner ∧
      boxes.get? a.owner ≠ some owner := by
  intro d
  have hanchors : (resolveAnchors d d.roots).anchors.map (·.owner) = ["a"] := by decide +kernel
  obtain ⟨a, hlist, howner⟩ := List.map_eq_singleton_iff.mp hanchors
  obtain ⟨boxes, hboxes⟩ := exists_compute standard_spacing d
  refine ⟨boxes, [], a, [], _, ⟨175, 315 / 2, 250, 215⟩, hboxes, hlist, rfl, ?_, ?_⟩
  · rw [howner]
    decide +kernel
  · have hlast : (compute d .standard).bind (·.get? "a") ≠ some ⟨175, 315 / 2, 250, 215⟩ := by
      decide +kernel
    rwa [hboxes, Option.bind_some, ← howner] at hlast

end Layout

end ComponentDiagram
