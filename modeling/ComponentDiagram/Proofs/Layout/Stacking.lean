import ComponentDiagram.Proofs.Layout.Shifting

/-! The box of a container around the stack of its children, in exact numbers. -/
namespace ComponentDiagram.Layout

/-- A container around its children: padded on all sides, with room for its label, not below the
least size, and the children under one another in its middle. -/
structure IsStacked (config : Config Rat) (container : Box Rat) (children : List (Box Rat)) :
    Prop where
  width : config.minContainerWidth ≤ container.width
  height : config.minContainerHeight ≤ container.height
  left : ∀ b ∈ children, container.left + config.sidePadding ≤ b.left
  right : ∀ b ∈ children, b.right + config.sidePadding ≤ container.right
  top : ∀ b ∈ children, container.top + (config.verticalPadding + config.labelBand) ≤ b.top
  bottom : ∀ b ∈ children, b.bottom + config.verticalPadding ≤ container.bottom
  centre : ∀ b ∈ children, b.x = container.x
  spaced : children.IsChain fun above below => below.top = above.bottom + config.childSpacing

/-! ## Edges in exact numbers -/

theorem Box.left_eq (b : Box Rat) : b.left = b.x - b.width / 2 := rfl

theorem Box.right_eq (b : Box Rat) : b.right = b.x + b.width / 2 := rfl

theorem Box.top_eq (b : Box Rat) : b.top = b.y - b.height / 2 := rfl

theorem Box.bottom_eq (b : Box Rat) : b.bottom = b.y + b.height / 2 := rfl

theorem min_eq (x y : Rat) : Scalar.min x y = min x y := by
  rw [Scalar.min, min_def]
  split <;> split
  · exact absurd ‹_› (not_le.mpr ‹y < x›)
  · rfl
  · rfl
  · exact absurd (not_lt.mp ‹¬ y < x›) ‹_›

theorem max_eq (x y : Rat) : Scalar.max x y = max x y := by
  rw [Scalar.max, max_def]
  split <;> split
  · rfl
  · exact absurd (le_of_lt ‹x < y›) ‹_›
  · exact le_antisymm ‹_› (not_lt.mp ‹¬ x < y›)
  · rfl

section

variable (b : Box Rat) (dx dy : Rat)

@[simp] theorem Box.translate_width : (b.translate dx dy).width = b.width := rfl

@[simp] theorem Box.translate_height : (b.translate dx dy).height = b.height := rfl

@[simp] theorem Box.translate_x : (b.translate dx dy).x = b.x + dx := rfl

@[simp] theorem Box.translate_y : (b.translate dx dy).y = b.y + dy := rfl

@[simp] theorem Box.translate_left : (b.translate dx dy).left = b.left + dx := by
  simp only [Box.left_eq, Box.translate_x, Box.translate_width]
  ring

@[simp] theorem Box.translate_right : (b.translate dx dy).right = b.right + dx := by
  simp only [Box.right_eq, Box.translate_x, Box.translate_width]
  ring

@[simp] theorem Box.translate_top : (b.translate dx dy).top = b.top + dy := by
  simp only [Box.top_eq, Box.translate_y, Box.translate_height]
  ring

@[simp] theorem Box.translate_bottom : (b.translate dx dy).bottom = b.bottom + dy := by
  simp only [Box.bottom_eq, Box.translate_y, Box.translate_height]
  ring

end

/-- A container that is moved with its children stays around them. -/
theorem IsStacked.translate {config : Config Rat} {container : Box Rat} {children : List (Box Rat)}
    (h : IsStacked config container children) (dx dy : Rat) :
    IsStacked config (container.translate dx dy) (children.map (·.translate dx dy)) := by
  constructor
  · exact h.width
  · exact h.height
  · intro b hb
    obtain ⟨c, hc, rfl⟩ := List.mem_map.mp hb
    have := h.left c hc
    simp only [Box.translate_left]
    linarith
  · intro b hb
    obtain ⟨c, hc, rfl⟩ := List.mem_map.mp hb
    have := h.right c hc
    simp only [Box.translate_right]
    linarith
  · intro b hb
    obtain ⟨c, hc, rfl⟩ := List.mem_map.mp hb
    have := h.top c hc
    simp only [Box.translate_top]
    linarith
  · intro b hb
    obtain ⟨c, hc, rfl⟩ := List.mem_map.mp hb
    have := h.bottom c hc
    simp only [Box.translate_bottom]
    linarith
  · intro b hb
    obtain ⟨c, hc, rfl⟩ := List.mem_map.mp hb
    rw [Box.translate_x, Box.translate_x, h.centre c hc]
  · rw [List.isChain_map]
    refine h.spaced.imp fun above below hab => ?_
    rw [Box.translate_top, Box.translate_bottom, hab]
    ring

/-! ## Enclosing -/

/-- Bounds that hold a box. -/
structure Bounds.Holds (bounds : Bounds Rat) (b : Box Rat) : Prop where
  left : bounds.left ≤ b.left
  top : bounds.top ≤ b.top
  right : b.right ≤ bounds.right
  bottom : b.bottom ≤ bounds.bottom

private theorem union_left (a c : Bounds Rat) : (a.union c).left = min a.left c.left := min_eq ..

private theorem union_top (a c : Bounds Rat) : (a.union c).top = min a.top c.top := min_eq ..

private theorem union_right (a c : Bounds Rat) : (a.union c).right = max a.right c.right := max_eq ..

private theorem union_bottom (a c : Bounds Rat) : (a.union c).bottom = max a.bottom c.bottom :=
  max_eq ..

private theorem holds_union_left {a c : Bounds Rat} {b : Box Rat} (h : a.Holds b) :
    (a.union c).Holds b := by
  refine ⟨?_, ?_, ?_, ?_⟩
  · rw [union_left]
    exact (min_le_left ..).trans h.left
  · rw [union_top]
    exact (min_le_left ..).trans h.top
  · rw [union_right]
    exact h.right.trans (le_max_left ..)
  · rw [union_bottom]
    exact h.bottom.trans (le_max_left ..)

private theorem holds_union_right (a : Bounds Rat) (b : Box Rat) : (a.union b.bounds).Holds b := by
  refine ⟨?_, ?_, ?_, ?_⟩
  · rw [union_left]
    exact min_le_right ..
  · rw [union_top]
    exact min_le_right ..
  · rw [union_right]
    exact le_max_right ..
  · rw [union_bottom]
    exact le_max_right ..

/-- The bounds around boxes hold them, and what they held before. -/
private theorem holds_fold (others : List (Box Rat)) (bounds : Bounds Rat) :
    (∀ b, bounds.Holds b → (others.foldl (fun bs b => bs.union b.bounds) bounds).Holds b) ∧
      ∀ b ∈ others, (others.foldl (fun bs b => bs.union b.bounds) bounds).Holds b := by
  induction others generalizing bounds with
  | nil => exact ⟨fun _ h => h, by simp⟩
  | cons c others ih =>
    obtain ⟨hkeep, hall⟩ := ih (bounds.union c.bounds)
    refine ⟨fun b h => hkeep b (holds_union_left h), fun b hb => ?_⟩
    rcases List.mem_cons.mp hb with rfl | hb
    · exact hkeep b (holds_union_right ..)
    · exact hall b hb

theorem unionBounds_holds (first : Box Rat) (others : List (Box Rat)) :
    ∀ b ∈ first :: others, (unionBounds first others).Holds b := by
  obtain ⟨hkeep, hall⟩ := holds_fold others first.bounds
  intro b hb
  rcases List.mem_cons.mp hb with rfl | hb
  · exact hkeep b ⟨le_refl _, le_refl _, le_refl _, le_refl _⟩
  · exact hall b hb

/-- Bounds whose middle is at `x`. -/
private theorem centre_fold {x : Rat} {others : List (Box Rat)} (h : ∀ b ∈ others, b.x = x)
    {bounds : Bounds Rat} (hb : bounds.left + bounds.right = 2 * x) :
    (others.foldl (fun bs b => bs.union b.bounds) bounds).left +
      (others.foldl (fun bs b => bs.union b.bounds) bounds).right = 2 * x := by
  induction others generalizing bounds with
  | nil => exact hb
  | cons c others ih =>
    obtain ⟨hc, hothers⟩ := List.forall_mem_cons.mp h
    refine ih hothers ?_
    have hleft : c.bounds.left = x - c.width / 2 := hc ▸ rfl
    have hright : c.bounds.right = x + c.width / 2 := hc ▸ rfl
    rw [union_left, union_right, hleft, hright]
    rcases le_total bounds.left (x - c.width / 2) with hle | hle
    · rw [min_eq_left hle, max_eq_left (by linarith)]
      exact hb
    · rw [min_eq_right hle, max_eq_right (by linarith)]
      ring

/-- A container is stacked around the boxes that it encloses. -/
theorem isStacked_enclose (config : Config Rat) {x : Rat} {first : Box Rat}
    {others : List (Box Rat)} (hx : ∀ b ∈ first :: others, b.x = x)
    (hs : (first :: others).IsChain fun above below =>
      below.top = above.bottom + config.childSpacing) :
    IsStacked config (enclose config first others) (first :: others) := by
  obtain ⟨hfirst, hothers⟩ := List.forall_mem_cons.mp hx
  have hholds := unionBounds_holds first others
  have hcentre : (unionBounds first others).left + (unionBounds first others).right = 2 * x := by
    refine centre_fold hothers ?_
    have hleft : first.bounds.left = first.x - first.width / 2 := rfl
    have hright : first.bounds.right = first.x + first.width / 2 := rfl
    rw [hleft, hright, hfirst]
    ring
  rw [enclose]
  generalize unionBounds first others = inner at hholds hcentre ⊢
  have hwidth : (containerAround config inner).width =
      max config.minContainerWidth (inner.right - inner.left + 2 * config.sidePadding) := max_eq ..
  have hheight : (containerAround config inner).height = max config.minContainerHeight
      (inner.bottom - inner.top + 2 * config.verticalPadding + config.labelBand) := max_eq ..
  have hmiddle : (containerAround config inner).x = (inner.left + inner.right) / 2 := rfl
  have hcentreY : (containerAround config inner).y = (inner.top - config.verticalPadding -
      config.labelBand + (inner.bottom + config.verticalPadding)) / 2 := rfl
  generalize containerAround config inner = container at hwidth hheight hmiddle hcentreY ⊢
  have hwide : inner.right - inner.left + 2 * config.sidePadding ≤ container.width :=
    hwidth ▸ le_max_right ..
  have hhigh : inner.bottom - inner.top + 2 * config.verticalPadding + config.labelBand ≤
      container.height := hheight ▸ le_max_right ..
  refine ⟨hwidth ▸ le_max_left .., hheight ▸ le_max_left .., ?_, ?_, ?_, ?_, ?_, hs⟩
  · intro b hb
    have hleft := (hholds b hb).left
    rw [Box.left_eq container, hmiddle]
    linarith
  · intro b hb
    have hright := (hholds b hb).right
    rw [Box.right_eq container, hmiddle]
    linarith
  · intro b hb
    have htop := (hholds b hb).top
    rw [Box.top_eq container, hcentreY]
    linarith
  · intro b hb
    have hbottom := (hholds b hb).bottom
    rw [Box.bottom_eq container, hcentreY]
    linarith
  · intro b hb
    rw [hx b hb, hmiddle, hcentre]
    ring

/-! ## Enclosing what is moved -/

def Bounds.translate (b : Bounds Rat) (dx dy : Rat) : Bounds Rat :=
  ⟨b.left + dx, b.top + dy, b.right + dx, b.bottom + dy⟩

section

variable (dx dy : Rat)

theorem Box.translate_bounds (b : Box Rat) :
    (b.translate dx dy).bounds = b.bounds.translate dx dy := by
  simp only [Box.bounds, Bounds.translate, Box.translate_left, Box.translate_top,
    Box.translate_right, Box.translate_bottom]

private theorem union_translate (a c : Bounds Rat) :
    (a.translate dx dy).union (c.translate dx dy) = (a.union c).translate dx dy := by
  simp only [Bounds.union, Bounds.translate, min_eq, max_eq, min_add_add_right, max_add_add_right]

private theorem unionBounds_translate (first : Box Rat) (others : List (Box Rat)) :
    unionBounds (first.translate dx dy) (others.map (·.translate dx dy)) =
      (unionBounds first others).translate dx dy := by
  rw [unionBounds, unionBounds, Box.translate_bounds]
  generalize first.bounds = bounds
  induction others generalizing bounds with
  | nil => rfl
  | cons b others ih =>
    rw [List.map_cons, List.foldl_cons, Box.translate_bounds, union_translate, ih, List.foldl_cons]

private theorem containerAround_translate (config : Config Rat) (inner : Bounds Rat) :
    containerAround config (inner.translate dx dy) =
      (containerAround config inner).translate dx dy := by
  simp only [containerAround, Bounds.translate, Box.translate, Box.mk.injEq, add_sub_add_right_eq_sub,
    and_true]
  constructor
  · change (inner.left + dx + (inner.right + dx)) / 2 = (inner.left + inner.right) / 2 + dx
    ring
  · change (inner.top + dy - config.verticalPadding - config.labelBand +
        (inner.bottom + dy + config.verticalPadding)) / 2 =
      (inner.top - config.verticalPadding - config.labelBand +
        (inner.bottom + config.verticalPadding)) / 2 + dy
    ring

/-- Boxes that are moved are enclosed by their container, moved with them. -/
theorem enclose_translate (config : Config Rat) (first : Box Rat) (others : List (Box Rat)) :
    enclose config (first.translate dx dy) (others.map (·.translate dx dy)) =
      (enclose config first others).translate dx dy := by
  rw [enclose, unionBounds_translate, containerAround_translate]
  rfl

end

end ComponentDiagram.Layout
