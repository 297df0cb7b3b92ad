import ComponentDiagram.Layout.Engine
import ComponentDiagram.Proofs.Layout.Stacking

/-! A box that slides along a side past all that is in its way. A run of slides that ends meets no
box twice, so there are no more slides than boxes, and the bounded search finds every such run. In
exact arithmetic each slide leaves fewer boxes ahead, so every run ends. -/
namespace ComponentDiagram.Layout

/-! ## Runs of slides -/

section

variable {α : Type} [Scalar α]

/-- Slides past what is in the way, each time the first such box, until nothing is. -/
inductive Slides (config : Config α) (side : Side) (placed : List (Box α)) :
    Nat → Box α → Box α → Prop
  | done {box} : placed.find? (box.intersects ·) = none → Slides config side placed 0 box box
  | past {slides box blocker last} : placed.find? (box.intersects ·) = some blocker →
      Slides config side placed slides (slidePast config side box blocker) last →
      Slides config side placed (slides + 1) box last

variable {config : Config α} {side : Side} {placed : List (Box α)}

/-- There is only one way to slide. -/
theorem Slides.unique {slides slides' : Nat} {box last last' : Box α}
    (h : Slides config side placed slides box last)
    (k : Slides config side placed slides' box last') : slides = slides' ∧ last = last' := by
  induction h generalizing slides' with
  | done hfind =>
    cases k with
    | done => exact ⟨rfl, rfl⟩
    | past hfind' => rw [hfind] at hfind'; cases hfind'
  | past hfind _ ih =>
    cases k with
    | done hfind' => rw [hfind] at hfind'; cases hfind'
    | past hfind' hrest =>
      rw [hfind] at hfind'
      cases hfind'
      obtain ⟨rfl, rfl⟩ := ih hrest
      exact ⟨rfl, rfl⟩

theorem Slides.clear {slides : Nat} {box last : Box α}
    (h : Slides config side placed slides box last) : ∀ b ∈ placed, last.intersects b = false := by
  induction h with
  | done hfind => simpa using hfind
  | past _ _ ih => exact ih

/-- Where a slide past a box ends does not depend on the slides before it. -/
theorem slidePast_slidePast (box first second : Box α) :
    slidePast config side (slidePast config side box first) second =
      slidePast config side box second := by
  cases hs : side.isVertical <;> simp only [slidePast, hs] <;> rfl

/-- The boxes that are met on a run are different ones, since the run goes on from each in its own
number of slides. -/
theorem Slides.exists_met {slides : Nat} {box last : Box α}
    (h : Slides config side placed slides box last) :
    ∃ met : List (Box α), met.length = slides ∧ met.Nodup ∧ met ⊆ placed ∧ ∀ b ∈ met,
      ∃ rest < slides, Slides config side placed rest (slidePast config side box b) last := by
  induction h with
  | done => exact ⟨[], rfl, .nil, by simp, by simp⟩
  | @past slides box blocker last hfind hrest ih =>
    obtain ⟨met, hlength, hnodup, hmem, hafter⟩ := ih
    simp only [slidePast_slidePast] at hafter
    refine ⟨blocker :: met, by rw [List.length_cons, hlength], ?_, ?_, ?_⟩
    · refine List.nodup_cons.mpr ⟨fun hagain => ?_, hnodup⟩
      obtain ⟨rest, hlt, hshort⟩ := hafter blocker hagain
      exact hlt.ne (hshort.unique hrest).1
    · exact List.cons_subset.mpr ⟨List.mem_of_find?_eq_some hfind, hmem⟩
    · rw [List.forall_mem_cons]
      refine ⟨⟨slides, slides.lt_succ_self, hrest⟩, fun b hb => ?_⟩
      obtain ⟨rest, hlt, hshort⟩ := hafter b hb
      exact ⟨rest, hlt.trans slides.lt_succ_self, hshort⟩

/-- A run that ends has no more slides than there are boxes. -/
theorem Slides.length_le {slides : Nat} {box last : Box α}
    (h : Slides config side placed slides box last) : slides ≤ placed.length := by
  obtain ⟨met, rfl, hnodup, hmem, -⟩ := h.exists_met
  exact (hnodup.subperm hmem).length_le

/-- A run ends at once, or with the run after the first slide. -/
theorem slides_iff {slides : Nat} (box : Box α) {last : Box α} :
    Slides config side placed slides box last ↔
      (slides = 0 ∧ placed.find? (box.intersects ·) = none ∧ box = last) ∨
        ∃ rest blocker, slides = rest + 1 ∧ placed.find? (box.intersects ·) = some blocker ∧
          Slides config side placed rest (slidePast config side box blocker) last := by
  constructor
  · rintro (hfind | ⟨hfind, hrest⟩)
    · exact .inl ⟨rfl, hfind, rfl⟩
    · exact .inr ⟨_, _, rfl, hfind, hrest⟩
  · rintro (⟨rfl, hfind, rfl⟩ | ⟨rest, blocker, rfl, hfind, hrest⟩)
    · exact .done hfind
    · exact .past hfind hrest

/-- A bounded search finds the runs within the bound. -/
theorem slideTo_eq_some {bound : Nat} {box last : Box α} :
    slideTo config side placed bound box = some last ↔
      ∃ slides ≤ bound, Slides config side placed slides box last := by
  induction bound generalizing box with
  | zero =>
    simp only [Nat.le_zero, exists_eq_left]
    rw [slides_iff, slideTo]
    simp
  | succ bound ih =>
    rw [slideTo]
    cases hfind : placed.find? (box.intersects ·) with
    | none => simp [slides_iff box, hfind]
    | some blocker => simp [slides_iff box, hfind, ih]

/-- A box slides clear exactly if some run of slides ends, however long. -/
theorem slideClear_eq_some {box last : Box α} : slideClear config side placed box = some last ↔
    ∃ slides, Slides config side placed slides box last := by
  rw [slideClear, slideTo_eq_some]
  exact ⟨fun ⟨slides, _, h⟩ => ⟨slides, h⟩, fun ⟨slides, h⟩ => ⟨slides, h.length_le, h⟩⟩

/-- It does not if no run ends. -/
theorem slideClear_eq_none {box : Box α} : slideClear config side placed box = none ↔
    ∀ slides last, ¬ Slides config side placed slides box last := by
  rw [Option.eq_none_iff_forall_ne_some]
  simp only [ne_eq, slideClear_eq_some, not_exists]
  exact forall_comm

end

/-! ## Exact arithmetic -/

/-- No setting is below zero. -/
def Config.IsNonneg (config : Config Rat) : Prop := ∀ s : Setting, 0 ≤ config.get s

theorem standard_isNonneg : (Config.standard : Config Rat).IsNonneg := by
  intro s
  rw [Config.standard, Config.get_ofRule]
  exact Nat.cast_nonneg (s.standard)

theorem standard_spacing : 0 ≤ (Config.standard : Config Rat).childSpacing :=
  standard_isNonneg .childSpacing

theorem intersects_iff {a b : Box Rat} : a.intersects b = true ↔
    a.left < b.right ∧ b.left < a.right ∧ a.top < b.bottom ∧ b.top < a.bottom := by
  simp [Box.intersects, and_assoc]

theorem intersects_comm (a b : Box Rat) : a.intersects b = b.intersects a := by
  rw [Bool.eq_iff_iff, intersects_iff, intersects_iff]
  constructor
  · rintro ⟨h₁, h₂, h₃, h₄⟩
    exact ⟨h₂, h₁, h₄, h₃⟩
  · rintro ⟨h₁, h₂, h₃, h₄⟩
    exact ⟨h₂, h₁, h₄, h₃⟩

/-! ## One slide -/

/-- The edge of a box that goes ahead least when it slides along a side. -/
def rear (side : Side) (b : Box Rat) : Rat := if side.isVertical then b.top else b.left

/-- The edge of a box that goes ahead most. -/
def front (side : Side) (b : Box Rat) : Rat := if side.isVertical then b.bottom else b.right

/-- Boxes that intersect do so along the side. -/
theorem rear_lt_front (side : Side) {a b : Box Rat} (h : a.intersects b = true) :
    rear side a < front side b := by
  obtain ⟨hleft, -, htop, -⟩ := intersects_iff.mp h
  rw [rear, front]
  split
  · exact htop
  · exact hleft

/-- A slide ends behind the box that was in the way. -/
theorem rear_slidePast (config : Config Rat) (side : Side) (box blocker : Box Rat) :
    rear side (slidePast config side box blocker) = front side blocker + config.childSpacing := by
  have hhalf (x : Rat) : Scalar.half x = x / 2 := rfl
  cases hs : side.isVertical with
  | true =>
    simp only [rear, front, slidePast, hs, if_true, Box.top_eq, Box.moveTo, hhalf]
    ring
  | false =>
    simp only [rear, front, slidePast, hs, Bool.false_eq_true, if_false, Box.left_eq, Box.moveTo,
      hhalf]
    ring

private theorem countP_lt {β : Type} {p q : β → Bool} {l : List β}
    (h : ∀ b ∈ l, p b = true → q b = true) {b : β} (hb : b ∈ l) (hq : q b = true)
    (hp : p b = false) : l.countP p < l.countP q := by
  induction l with
  | nil => cases hb
  | cons c l ih =>
    obtain ⟨hc, hl⟩ := List.forall_mem_cons.mp h
    rw [List.countP_cons, List.countP_cons]
    have hle := List.countP_mono_left hl
    rcases List.mem_cons.mp hb with rfl | hb
    · rw [if_pos hq, if_neg (by simp [hp])]
      omega
    · have hlt := ih hl hb
      split <;> split <;> first | omega | skip
      rename_i hpc hqc
      exact absurd (hc hpc) hqc

/-- The boxes that a sliding box can still run into. -/
def ahead (side : Side) (placed : List (Box Rat)) (box : Box Rat) : Nat :=
  placed.countP fun b => decide (rear side box < front side b)

/-- A slide past a box leaves fewer boxes ahead. -/
theorem ahead_slidePast {config : Config Rat} (hspacing : 0 ≤ config.childSpacing) (side : Side)
    {placed : List (Box Rat)} {box blocker : Box Rat} (hb : blocker ∈ placed)
    (hi : box.intersects blocker = true) :
    ahead side placed (slidePast config side box blocker) < ahead side placed box := by
  have hhit := rear_lt_front side hi
  apply countP_lt (b := blocker)
  · intro b _ hlt
    rw [rear_slidePast] at hlt
    have hlt := of_decide_eq_true hlt
    exact decide_eq_true (by linarith)
  · exact hb
  · exact decide_eq_true hhit
  · rw [rear_slidePast]
    exact decide_eq_false (by linarith)

/-- In exact arithmetic every run of slides ends. -/
theorem exists_slides {config : Config Rat} (hspacing : 0 ≤ config.childSpacing) (side : Side)
    (placed : List (Box Rat)) (box : Box Rat) :
    ∃ slides last, Slides config side placed slides box last := by
  induction hn : ahead side placed box using Nat.strong_induction_on generalizing box with
  | h n ih =>
    cases hfind : placed.find? (box.intersects ·) with
    | none => exact ⟨0, box, .done hfind⟩
    | some blocker =>
      have hfewer := ahead_slidePast hspacing side (List.mem_of_find?_eq_some hfind)
        (List.find?_some hfind)
      obtain ⟨slides, last, hslides⟩ := ih _ (hn ▸ hfewer) _ rfl
      exact ⟨slides + 1, last, .past hfind hslides⟩

/-! ## Where a slide ends -/

/-- Boxes of one size. -/
def SameSize (a b : Box Rat) : Prop := a.width = b.width ∧ a.height = b.height

/-- A box that is moved by the way to one of its size becomes that one. -/
theorem SameSize.translate_eq {target box : Box Rat} (h : SameSize target box) :
    box.translate (target.x - box.x) (target.y - box.y) = target := by
  have hx : box.x + (target.x - box.x) = target.x := by ring
  have hy : box.y + (target.y - box.y) = target.y := by ring
  rw [Box.translate, hx, hy, ← h.1, ← h.2]

theorem sameSize_slidePast (config : Config Rat) (side : Side) (box blocker : Box Rat) :
    SameSize (slidePast config side box blocker) box := by
  rw [slidePast]
  split <;> exact ⟨rfl, rfl⟩

theorem Slides.sameSize {config : Config Rat} {side : Side} {placed : List (Box Rat)}
    {slides : Nat} {box last : Box Rat} (h : Slides config side placed slides box last) :
    SameSize last box := by
  induction h with
  | done => exact ⟨rfl, rfl⟩
  | past _ _ ih =>
    obtain ⟨hwidth, hheight⟩ := sameSize_slidePast config side _ _
    exact ⟨ih.1.trans hwidth, ih.2.trans hheight⟩

theorem sameSize_standOff (config : Config Rat) (side : Side) (point : Rat × Rat) (box : Box Rat) :
    SameSize (standOff config side point box) box := by
  cases side <;> exact ⟨rfl, rfl⟩

/-- A box after a slide: it is of the same size, and has moved along the side only, ahead if at
all. -/
structure IsSlid (side : Side) (box last : Box Rat) : Prop where
  size : SameSize last box
  along : if side.isVertical then last.x = box.x ∧ box.y ≤ last.y
    else last.y = box.y ∧ box.x ≤ last.x

theorem IsSlid.refl (side : Side) (box : Box Rat) : IsSlid side box box := by
  refine ⟨⟨rfl, rfl⟩, ?_⟩
  split <;> exact ⟨rfl, le_refl _⟩

theorem IsSlid.trans {side : Side} {a b c : Box Rat} (h : IsSlid side a b) (k : IsSlid side b c) :
    IsSlid side a c := by
  refine ⟨⟨k.size.1.trans h.size.1, k.size.2.trans h.size.2⟩, ?_⟩
  have hab := h.along
  have hbc := k.along
  split at hab
  · rename_i hs
    rw [if_pos hs] at hbc ⊢
    exact ⟨hbc.1.trans hab.1, hab.2.trans hbc.2⟩
  · rename_i hs
    rw [if_neg hs] at hbc ⊢
    exact ⟨hbc.1.trans hab.1, hab.2.trans hbc.2⟩

theorem isSlid_slidePast {config : Config Rat} (hspacing : 0 ≤ config.childSpacing) {side : Side}
    {box blocker : Box Rat} (hi : box.intersects blocker = true) :
    IsSlid side box (slidePast config side box blocker) := by
  have hhalf (x : Rat) : Scalar.half x = x / 2 := rfl
  obtain ⟨hleft, -, htop, -⟩ := intersects_iff.mp hi
  rw [Box.left_eq] at hleft
  rw [Box.top_eq] at htop
  refine ⟨sameSize_slidePast .., ?_⟩
  rw [slidePast]
  split
  · refine ⟨rfl, ?_⟩
    rw [Box.moveTo, hhalf]
    linarith
  · refine ⟨rfl, ?_⟩
    rw [Box.moveTo, hhalf]
    linarith

theorem Slides.isSlid {config : Config Rat} (hspacing : 0 ≤ config.childSpacing) {side : Side}
    {placed : List (Box Rat)} {slides : Nat} {box last : Box Rat}
    (h : Slides config side placed slides box last) : IsSlid side box last := by
  induction h with
  | done => exact .refl side _
  | past hfind _ ih => exact (isSlid_slidePast hspacing (List.find?_some hfind)).trans ih

end ComponentDiagram.Layout
