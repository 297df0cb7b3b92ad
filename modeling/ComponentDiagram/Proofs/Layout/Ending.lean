import ComponentDiagram.Proofs.Layout.Sliding

/-! Whether a layout ends. All it does ends but for the slides of anchored roots, so it runs on
forever exactly if one of these does. In exact arithmetic none does. -/
namespace ComponentDiagram.Layout

section

variable {α : Type} [Scalar α]

/-! ## One anchored root -/

/-- Slides of an anchored root from its port, past what is placed, where it and its owner have
boxes. -/
def Placement.Slides (p : Placement α) (config : Config α) (a : Anchor α) (slides : Nat)
    (last : Box α) : Prop :=
  ∃ box owner, p.boxes.get? a.node = some box ∧ p.boxes.get? a.owner = some owner ∧
    Layout.Slides config a.port.side (p.placed.filterMap p.boxes.get?) slides
      (standOff config a.port.side (portPoint owner a.port.side a.port.offset) box) last

/-- An anchored root and its owner have boxes, and no run of slides of the root ends. -/
def Placement.IsEndless (p : Placement α) (config : Config α) (a : Anchor α) : Prop :=
  (p.boxes.get? a.node).isSome ∧ (p.boxes.get? a.owner).isSome ∧
    ∀ slides last, ¬ p.Slides config a slides last

variable {d : Diagram α} {config : Config α}

/-- An anchored root is placed where it slides to, and stays where it is if a box is missing. -/
theorem placeAnchored_cases {p p' : Placement α} {a : Anchor α}
    (h : p.placeAnchored d config a = some p') :
    (p' = p ∧ (p.boxes.get? a.node = none ∨ p.boxes.get? a.owner = none)) ∨
      ∃ slides last, p.Slides config a slides last ∧ p' = p.place d a.node last := by
  rw [Placement.placeAnchored] at h
  cases hbox : p.boxes.get? a.node with
  | none =>
    rw [hbox] at h
    cases h
    exact .inl ⟨rfl, .inl rfl⟩
  | some box =>
    cases howner : p.boxes.get? a.owner with
    | none =>
      rw [hbox, howner] at h
      cases h
      exact .inl ⟨rfl, .inr rfl⟩
    | some owner =>
      rw [hbox, howner] at h
      obtain ⟨last, hlast, rfl⟩ := Option.map_eq_some_iff.mp h
      obtain ⟨slides, hslides⟩ := slideClear_eq_some.mp hlast
      exact .inr ⟨slides, last, ⟨box, owner, hbox, howner, hslides⟩, rfl⟩

theorem placeAnchored_eq_none {p : Placement α} {a : Anchor α} :
    p.placeAnchored d config a = none ↔ p.IsEndless config a := by
  rw [Placement.placeAnchored, Placement.IsEndless]
  cases hbox : p.boxes.get? a.node with
  | none => simp
  | some box =>
    cases howner : p.boxes.get? a.owner with
    | none => simp
    | some owner => simp [Placement.Slides, slideClear_eq_none, hbox, howner]

/-! ## All roots -/

/-- A run over a list fails exactly if one step does. -/
theorem foldlM_eq_none {σ β : Type} {step : σ → β → Option σ} {l : List β} {s : σ} :
    l.foldlM step s = none ↔ ∃ before b after t, l = before ++ b :: after ∧
      before.foldlM step s = some t ∧ step t b = none := by
  induction l generalizing s with
  | nil => simp
  | cons b l ih =>
    rw [List.foldlM_cons]
    constructor
    · intro h
      cases hstep : step s b with
      | none => exact ⟨[], b, l, s, rfl, rfl, hstep⟩
      | some t =>
        rw [hstep] at h
        obtain ⟨before, c, after, u, rfl, hbefore, hc⟩ := ih.mp h
        exact ⟨b :: before, c, after, u, rfl, by rwa [List.foldlM_cons, hstep], hc⟩
    · rintro ⟨before, c, after, u, hl, hbefore, hc⟩
      cases before with
      | nil =>
        cases hl
        cases hbefore
        rw [hc]
        rfl
      | cons e before =>
        cases hl
        obtain ⟨t, hstep, hbefore⟩ := Option.bind_eq_some_iff.mp hbefore
        rw [hstep]
        exact ih.mpr ⟨before, c, after, u, rfl, hbefore, hc⟩

variable (d config)

/-- All roots but those that are anchored, in their final places. -/
def placeUnanchored (boxes : Boxes α) : Placement α :=
  let gridded := (griddedRoots d.roots (resolveAnchors d d.roots).anchors).map (·.id)
  let cells := gridPositions config (gridded.filterMap boxes.get?)
  (gridded.zip cells).foldl (fun p e => p.place d e.1 e.2)
    ((d.roots.filter (·.pinned)).foldl (Placement.placePinned d) { boxes })

/-- The placement in which an anchor is placed, after those before it. -/
def placeBefore (before : Anchors α) : Option (Placement α) :=
  before.foldlM (Placement.placeAnchored d config) (placeUnanchored d config (sizeRoots d config))

variable {d config}

/-- A layout ends with all anchors placed, those before one and those after it. -/
theorem compute_eq_some {before after : Anchors α} {boxes : Boxes α}
    (h : (resolveAnchors d d.roots).anchors = before ++ after) :
    compute d config = some boxes ↔ ∃ p q, placeBefore d config before = some p ∧
      after.foldlM (Placement.placeAnchored d config) p = some q ∧ q.boxes = boxes := by
  have hcompute : compute d config =
      ((resolveAnchors d d.roots).anchors.foldlM (Placement.placeAnchored d config)
        (placeUnanchored d config (sizeRoots d config))).map (·.boxes) := rfl
  rw [hcompute, h, List.foldlM_append]
  simp only [Option.map_eq_some_iff, Option.bind_eq_bind, Option.bind_eq_some_iff, placeBefore]
  constructor
  · rintro ⟨q, ⟨p, hp, hq⟩, hboxes⟩
    exact ⟨p, q, hp, hq, hboxes⟩
  · rintro ⟨p, q, hp, hq, hboxes⟩
    exact ⟨q, ⟨p, hp, hq⟩, hboxes⟩

/-- A layout ends unless an anchored root slides on forever. -/
theorem compute_eq_none : compute d config = none ↔ ∃ before a after p,
    (resolveAnchors d d.roots).anchors = before ++ a :: after ∧
      placeBefore d config before = some p ∧ p.IsEndless config a := by
  have hcompute : compute d config = (placeBefore d config (resolveAnchors d d.roots).anchors).map
    (·.boxes) := rfl
  rw [hcompute, Option.map_eq_none_iff, placeBefore, foldlM_eq_none]
  simp only [placeAnchored_eq_none]
  rfl

/-- So it ends where no root is anchored. -/
theorem exists_compute_of_unanchored (h : (resolveAnchors d d.roots).anchors = [])
    (config : Config α) : ∃ boxes, compute d config = some boxes := by
  rw [← Option.ne_none_iff_exists', Ne, compute_eq_none]
  rintro ⟨before, a, after, p, hsplit, -⟩
  rw [h] at hsplit
  simp at hsplit

omit [Scalar α] in
theorem resolveAnchors_of_unconnected (h : d.connectors = []) (roots : List (FlatNode α)) :
    (resolveAnchors d roots).anchors = [] := by
  rw [resolveAnchors, findAnchors, h]
  rfl

end

/-! ## Exact arithmetic -/

/-- In exact arithmetic a layout ends. -/
theorem exists_compute {config : Config Rat} (hspacing : 0 ≤ config.childSpacing)
    (d : Diagram Rat) : ∃ boxes, compute d config = some boxes := by
  rw [← Option.ne_none_iff_exists', Ne, compute_eq_none]
  rintro ⟨before, a, after, p, -, -, hbox, howner, hendless⟩
  obtain ⟨box, hbox⟩ := Option.isSome_iff_exists.mp hbox
  obtain ⟨owner, howner⟩ := Option.isSome_iff_exists.mp howner
  obtain ⟨slides, last, hslides⟩ := exists_slides hspacing a.port.side
    (p.placed.filterMap p.boxes.get?)
    (standOff config a.port.side (portPoint owner a.port.side a.port.offset) box)
  exact hendless slides last ⟨box, owner, hbox, howner, hslides⟩

theorem exists_layout {config : Config Rat} (hspacing : 0 ≤ config.childSpacing)
    (d : Diagram Rat) : ∃ d', layout d config = some d' := by
  obtain ⟨boxes, hboxes⟩ := exists_compute hspacing d
  exact ⟨apply d boxes, by rw [layout, hboxes, Option.map_some]⟩

end ComponentDiagram.Layout
