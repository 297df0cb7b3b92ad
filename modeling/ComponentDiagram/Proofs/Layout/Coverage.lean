import ComponentDiagram.Proofs.Build.Reaching
import ComponentDiagram.Proofs.Grammar.Proper
import ComponentDiagram.Proofs.Layout.Ending
import ComponentDiagram.Proofs.Layout.Shifting

/-! Which components a layout gives a box: those whose ids are found from the roots down. -/
namespace ComponentDiagram.Layout

variable {α : Type} [Scalar α] (d : Diagram α) (config : Config α)

/-! ## Sizing -/

omit [Scalar α] in
theorem Boxes.mem_ids_put {boxes : Boxes α} {id key : String} {box : Box α} :
    key ∈ (boxes.put id box).ids ↔ key ∈ boxes.ids ∨ key = id := by
  rw [Boxes.ids_put]
  split
  · rename_i hid
    refine ⟨.inl, ?_⟩
    rintro (h | rfl)
    · exact h
    · exact hid
  · rw [List.mem_append, List.mem_singleton]

/-- Stacking children gives boxes to what sizing each of them does. -/
private theorem mem_ids_stack {x y : α} {size : String → Boxes α → Boxes α × Box α}
    {P : String → String → Prop}
    (hsize : ∀ id boxes key, key ∈ (size id boxes).1.ids ↔ key ∈ boxes.ids ∨ P id key)
    (ids : List String) (stack : Stack α) (key : String) :
    key ∈ (ids.foldl (Stack.push d config x y size) stack).boxes.ids ↔
      key ∈ stack.boxes.ids ∨ ∃ id ∈ ids, P id key := by
  induction ids generalizing stack with
  | nil => simp
  | cons id ids ih =>
    have hpush : (stack.push d config x y size id).boxes.ids = (size id stack.boxes).1.ids :=
      ids_shift ..
    rw [List.foldl_cons, ih, hpush, hsize, List.exists_mem_cons_iff, or_assoc]

/-- Sizing gives a box to all that it reaches. -/
theorem mem_ids_sizeTo (x y : α) (depth : Nat) (id : String) (boxes : Boxes α) (key : String) :
    key ∈ (sizeTo d config x y depth id boxes).1.ids ↔
      key ∈ boxes.ids ∨ key ∈ d.reach depth id := by
  induction depth generalizing id boxes key with
  | zero => rw [sizeTo, Boxes.mem_ids_put, Diagram.mem_reach_zero]
  | succ depth ih =>
    rw [sizeTo, Boxes.mem_ids_put, mem_ids_stack d config ih, Diagram.mem_reach_succ, or_assoc,
      or_comm (a := ∃ _, _)]

theorem mem_ids_sizeRoots {key : String} : key ∈ (sizeRoots d config).ids ↔
    ∃ r ∈ d.roots, key ∈ d.reach (d.nodes.length + 1) r.id := by
  have hroots (roots : List (FlatNode α)) (boxes : Boxes α) :
      key ∈ (roots.foldl (fun boxes root =>
        (sizeSubtree d config Scalar.zero Scalar.zero root.id boxes).1) boxes).ids ↔
        key ∈ boxes.ids ∨ ∃ r ∈ roots, key ∈ d.reach (d.nodes.length + 1) r.id := by
    induction roots generalizing boxes with
    | nil => simp
    | cons r roots ih =>
      rw [List.foldl_cons, ih, sizeSubtree, mem_ids_sizeTo, List.exists_mem_cons_iff, or_assoc]
  rw [sizeRoots, hroots]
  exact or_iff_right List.not_mem_nil

/-! ## Placing -/

variable {d config}

theorem ids_place (p : Placement α) (id : String) (target : Box α) :
    (p.place d id target).boxes.ids = p.boxes.ids := by
  rw [Placement.place]
  split
  · exact ids_shift ..
  · rfl

theorem ids_placePinned (p : Placement α) (root : FlatNode α) :
    (p.placePinned d root).boxes.ids = p.boxes.ids := by
  rw [Placement.placePinned]
  split
  · exact ids_place ..
  · rfl

theorem ids_placeAnchored {p p' : Placement α} {anchor : Anchor α}
    (h : p.placeAnchored d config anchor = some p') : p'.boxes.ids = p.boxes.ids := by
  rcases placeAnchored_cases h with ⟨rfl, -⟩ | ⟨_, last, -, rfl⟩
  · rfl
  · exact ids_place p anchor.node last

omit [Scalar α] in
private theorem ids_foldl {β : Type} {step : Placement α → β → Placement α}
    (h : ∀ p b, (step p b).boxes.ids = p.boxes.ids) (bs : List β) (p : Placement α) :
    (bs.foldl step p).boxes.ids = p.boxes.ids := by
  induction bs generalizing p with
  | nil => rfl
  | cons b bs ih => rw [List.foldl_cons, ih, h]

theorem ids_placeAllAnchored {anchors : Anchors α} {p q : Placement α}
    (h : anchors.foldlM (Placement.placeAnchored d config) p = some q) :
    q.boxes.ids = p.boxes.ids := by
  induction anchors generalizing p with
  | nil =>
    cases h
    rfl
  | cons a anchors ih =>
    obtain ⟨p', hstep, hrest⟩ := Option.bind_eq_some_iff.mp h
    rw [ih hrest, ids_placeAnchored hstep]

variable (d config)

theorem ids_placeUnanchored (boxes : Boxes α) :
    (placeUnanchored d config boxes).boxes.ids = boxes.ids := by
  rw [placeUnanchored, ids_foldl fun p (e : String × Box α) => ids_place p e.1 e.2,
    ids_foldl ids_placePinned]

variable {d config}

/-- A layout gives a box to all that it reaches from the roots. -/
theorem mem_ids_compute {boxes : Boxes α} (h : compute d config = some boxes) {key : String} :
    key ∈ boxes.ids ↔ ∃ r ∈ d.roots, key ∈ d.reach (d.nodes.length + 1) r.id := by
  obtain ⟨p, q, hp, hq, rfl⟩ := (compute_eq_some (List.append_nil _).symm).mp h
  cases hq
  rw [ids_placeAllAnchored hp, ids_placeUnanchored, mem_ids_sizeRoots]

/-! ## Coverage -/

/-- A layout has a box for every entry exactly if every component is addressed. -/
theorem covers_iff {doc : Document α} {boxes : Boxes α}
    (h : compute (Build.diagram doc) config = some boxes) :
    (∀ n ∈ (Build.diagram doc).nodes, ∃ box, boxes.get? n.id = some box) ↔
      ∀ c ∈ doc.components, doc.IsAddressed c.id := by
  have hids : (Build.diagram doc).nodes.map (·.id) = doc.components.map (·.id) :=
    Build.ids_diagram doc
  have hnodes (P : String → Prop) :
      (∀ n ∈ (Build.diagram doc).nodes, P n.id) ↔ ∀ c ∈ doc.components, P c.id := by
    rw [← List.forall_mem_map (f := fun n : FlatNode α => n.id) (P := P), hids, List.forall_mem_map]
  rw [hnodes fun id => ∃ box, boxes.get? id = some box]
  refine ⟨fun hboxes c hc => ?_, fun haddressed c hc => ?_⟩
  · obtain ⟨r, hr, hreach⟩ := (mem_ids_compute h).mp (Boxes.mem_ids.mpr (hboxes c hc))
    exact Build.isAddressed_of_reach hr hreach
  · exact Boxes.mem_ids.mp ((mem_ids_compute h).mpr (Build.exists_reach haddressed hc))

omit [Scalar α] in
/-- Where entries have no sizes, boxes give them to those that have one. -/
theorem sized_iff {d : Diagram α} (h : ∀ n ∈ d.nodes, n.width = none ∧ n.height = none)
    (boxes : Boxes α) :
    (∀ n ∈ (apply d boxes).nodes, n.width.isSome ∧ n.height.isSome) ↔
      ∀ n ∈ d.nodes, ∃ box, boxes.get? n.id = some box := by
  rw [apply]
  simp only [List.forall_mem_map]
  refine forall₂_congr fun n hn => ?_
  obtain ⟨hwidth, hheight⟩ := h n hn
  cases hbox : boxes.get? n.id with
  | none => simp [hwidth]
  | some box => simp

/-- Nothing that is read has a size. -/
theorem unsized_diagram {doc : Document α} (h : doc.IsRead) :
    ∀ n ∈ (Build.diagram doc).nodes, n.width = none ∧ n.height = none := by
  have hsizes := Build.map_flattenForest (f := fun n => (n.width, n.height))
    (g := fun t => (t.value.width, t.value.height)) (fun _ _ _ _ => rfl) none 0 doc.roots
  intro n hn
  have hmem := List.mem_map_of_mem (f := fun n : FlatNode α => (n.width, n.height)) hn
  rw [Build.diagram, Build.addRouted, Build.flatten, hsizes] at hmem
  obtain ⟨t, ht, heq⟩ := List.mem_map.mp hmem
  have hc := h.roots.values t.value (List.mem_map_of_mem ht)
  simp only [Prod.mk.injEq] at heq
  exact ⟨heq.1 ▸ hc.width, heq.2 ▸ hc.height⟩

/-- The layout of a text that is read ends unless an anchored root slides on forever. If it ends, it
has a box for every entry, and leaves none without a size, exactly if each component's id is that of
a root, or of a child of a component that is the last one with its own id. Different ids are. -/
theorem layout_covers_iff {text : String} {file : Option Path} {doc : Document α}
    (h : Grammar.parse text file = .ok doc) (config : Config α) :
    let d := Build.diagram doc
    (compute d config = none ↔ ∃ before a after p,
      (resolveAnchors d d.roots).anchors = before ++ a :: after ∧
        placeBefore d config before = some p ∧ p.IsEndless config a) ∧
    (∀ boxes, compute d config = some boxes →
      ((∀ n ∈ d.nodes, ∃ box, boxes.get? n.id = some box) ↔
        ∀ c ∈ doc.components, doc.IsAddressed c.id) ∧
      ((∀ n ∈ (apply d boxes).nodes, n.width.isSome ∧ n.height.isSome) ↔
        ∀ c ∈ doc.components, doc.IsAddressed c.id)) ∧
    ((doc.components.map (·.id)).Nodup → ∀ c ∈ doc.components, doc.IsAddressed c.id) := by
  refine ⟨compute_eq_none, fun boxes hboxes => ⟨covers_iff hboxes, ?_⟩, fun hd c hc => ?_⟩
  · rw [sized_iff (unsized_diagram (Grammar.parse_isRead h)), covers_iff hboxes]
  · exact Document.isAddressed_of_nodup hd (List.mem_map_of_mem hc)

/-- A component inside another one, and one with its id inside a third. -/
theorem layout_covers_iff_twin : ∃ (doc : Document Float) (boxes : Boxes Float),
    Grammar.parse "[a] \x7b\n[b]\n\x7d\n[c] \x7b\n[b]\n\x7d\n" none = .ok doc ∧
      compute (Build.diagram doc) .standard = some boxes ∧
      ∀ n ∈ (Build.diagram doc).nodes, ∃ box, boxes.get? n.id = some box := by
  have hread : ((Grammar.parse "[a] \x7b\n[b]\n\x7d\n[c] \x7b\n[b]\n\x7d\n" none :
      Except Grammar.Failure (Document Float)).toOption.map fun doc =>
        (decide (∀ c ∈ doc.components, doc.IsAddressed c.id),
          (compute (Build.diagram doc) .standard).isSome)) = some (true, true) := by
    decide +kernel
  obtain ⟨doc, hdoc, hfacts⟩ := Option.map_eq_some_iff.mp hread
  obtain ⟨haddressed, hends⟩ := Prod.mk.inj hfacts
  obtain ⟨boxes, hboxes⟩ := Option.isSome_iff_exists.mp hends
  have hparse := Grammar.ok_of_toOption hdoc
  refine ⟨doc, boxes, hparse, hboxes, ?_⟩
  exact ((layout_covers_iff hparse .standard).2.1 boxes hboxes).1.mpr (of_decide_eq_true haddressed)

/-- Of two roots with one id, the layout looks into the second only: what the first one holds has no
box, and is left without a size. -/
theorem layout_misses_child : ∃ doc : Document Float,
    Grammar.parse "[a] \x7b\n[x]\n\x7d\n[a]\n" none = .ok doc ∧
      ∀ config : Config Float, ∃ boxes, compute (Build.diagram doc) config = some boxes ∧
        boxes.get? "x" = none ∧ ∃ n ∈ (apply (Build.diagram doc) boxes).nodes,
          n.id = "x" ∧ n.width = none ∧ n.height = none := by
  have hread : ((Grammar.parse "[a] \x7b\n[x]\n\x7d\n[a]\n" none :
      Except Grammar.Failure (Document Float)).toOption.map fun doc =>
        (doc.components.map (·.id), decide (doc.IsAddressed "x"),
          (Build.diagram doc).connectors.length)) = some (["a", "x", "a"], false, 0) := by
    decide +kernel
  obtain ⟨doc, hdoc, hfacts⟩ := Option.map_eq_some_iff.mp hread
  obtain ⟨hids, hfacts⟩ := Prod.mk.inj hfacts
  obtain ⟨haddressed, hconnectors⟩ := Prod.mk.inj hfacts
  have hparse := Grammar.ok_of_toOption hdoc
  refine ⟨doc, hparse, fun config => ?_⟩
  obtain ⟨boxes, hboxes⟩ := exists_compute_of_unanchored
    (resolveAnchors_of_unconnected (List.eq_nil_of_length_eq_zero hconnectors) _) config
  have hnone : boxes.get? "x" = none := by
    rw [Option.eq_none_iff_forall_ne_some]
    intro box hbox
    obtain ⟨r, hr, hreach⟩ := (mem_ids_compute hboxes).mp (Boxes.mem_ids.mpr ⟨box, hbox⟩)
    exact of_decide_eq_false haddressed (Build.isAddressed_of_reach hr hreach)
  have hentries : (Build.diagram doc).nodes.map (·.id) = doc.components.map (·.id) :=
    Build.ids_diagram doc
  have hx : "x" ∈ (Build.diagram doc).nodes.map (·.id) := by
    rw [hentries, hids]
    decide
  obtain ⟨n, hn, hid⟩ := List.mem_map.mp hx
  obtain ⟨hwidth, hheight⟩ := unsized_diagram (Grammar.parse_isRead hparse) n hn
  refine ⟨boxes, hboxes, hnone, n, List.mem_map.mpr ⟨n, hn, ?_⟩, hid, hwidth, hheight⟩
  rw [hid, hnone]

/-- Settings with which a slide past a box can end on the edge of that box, rounded to a place where
the two still intersect. -/
def tightSettings : Config Float :=
  [(Setting.childSpacing, 0), (.leafHeight, 55.1), (.minContainerHeight, 233.2),
    (.verticalPadding, 0), (.labelBand, 0)].foldl (fun config (s, x) => config.set s x) .standard

/-- In rounded arithmetic an anchored root may slide on forever. -/
theorem layout_slides_forever : (∀ s, 0 ≤ tightSettings.get s) ∧ ∃ doc : Document Float,
    Grammar.parse
      "[o] @ 0,367 \x7b\n[c]\n\x7d\n[a] \x7b\n[b]\n\x7d\n[p] @ -650,367\na -> c\n" none = .ok doc ∧
      compute (Build.diagram doc) tightSettings = none := by
  refine ⟨fun s => ?_, ?_⟩
  · cases s <;> decide +kernel
  have hread : ((Grammar.parse
      "[o] @ 0,367 \x7b\n[c]\n\x7d\n[a] \x7b\n[b]\n\x7d\n[p] @ -650,367\na -> c\n" none :
      Except Grammar.Failure (Document Float)).toOption.map fun doc =>
        (compute (Build.diagram doc) tightSettings).isNone) = some true := by
    decide +kernel
  obtain ⟨doc, hdoc, hnone⟩ := Option.map_eq_some_iff.mp hread
  exact ⟨doc, Grammar.ok_of_toOption hdoc, Option.isNone_iff_eq_none.mp hnone⟩

end ComponentDiagram.Layout
