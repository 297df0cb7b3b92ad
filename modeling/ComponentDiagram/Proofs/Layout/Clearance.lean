import ComponentDiagram.Proofs.Layout.Sliding
import Mathlib.Analysis.Real.Sqrt

/-! The grid: as few columns as make it a square, every box in the cell of its row and its column, and
columns and rows apart by the spacing that is set. So the cells stay clear of one another. -/
namespace ComponentDiagram.Layout

/-- Stretches come one after the other. -/
theorem starts_le {gap : Rat} (hg : 0 ≤ gap) {sizes : List Rat} (hs : ∀ s ∈ sizes, 0 ≤ s)
    (start : Rat) : ∀ x ∈ starts start gap sizes, start ≤ x := by
  induction sizes generalizing start with
  | nil =>
    intro x hx
    cases hx
  | cons size sizes ih =>
    obtain ⟨hsize, hsizes⟩ := List.forall_mem_cons.mp hs
    intro x hx
    rcases List.mem_cons.mp hx with rfl | hx
    · exact le_refl _
    · have hle := ih hsizes (start + (size + gap)) x hx
      linarith

@[simp] theorem length_starts (start gap : Rat) (sizes : List Rat) :
    (starts start gap sizes).length = sizes.length := by
  induction sizes generalizing start with
  | nil => rfl
  | cons size sizes ih => rw [starts, List.length_cons, List.length_cons, ih]

/-- A stretch ends at least a gap before a later one starts. -/
theorem starts_apart {gap : Rat} (hg : 0 ≤ gap) {sizes : List Rat} (hs : ∀ s ∈ sizes, 0 ≤ s)
    (start : Rat) {i j : Nat} {x y size : Rat} (hij : i < j)
    (hx : (starts start gap sizes)[i]? = some x) (hy : (starts start gap sizes)[j]? = some y)
    (hsize : sizes[i]? = some size) : x + size + gap ≤ y := by
  induction sizes generalizing start i j with
  | nil => simp at hsize
  | cons first sizes ih =>
    obtain ⟨-, hsizes⟩ := List.forall_mem_cons.mp hs
    obtain ⟨j, rfl⟩ := Nat.exists_eq_add_of_lt (Nat.zero_lt_of_lt hij)
    rw [Nat.zero_add] at hij hy
    rw [starts, List.getElem?_cons_succ] at hy
    cases i with
    | zero =>
      rw [starts, List.getElem?_cons_zero] at hx
      rw [List.getElem?_cons_zero] at hsize
      have hle := starts_le hg hsizes _ y (List.mem_of_getElem? hy)
      rw [← Option.some.inj hx, ← Option.some.inj hsize]
      linarith
    | succ i =>
      rw [starts, List.getElem?_cons_succ] at hx
      rw [List.getElem?_cons_succ] at hsize
      exact ih hsizes _ (by omega) hx hy hsize

theorem foldl_max (sizes : List Rat) (least : Rat) :
    least ≤ sizes.foldl Scalar.max least ∧ ∀ s ∈ sizes, s ≤ sizes.foldl Scalar.max least := by
  induction sizes generalizing least with
  | nil => exact ⟨le_refl _, by simp⟩
  | cons size sizes ih =>
    obtain ⟨hleast, hall⟩ := ih (Scalar.max least size)
    rw [max_eq] at hleast hall
    rw [List.foldl_cons, max_eq]
    refine ⟨(le_max_left ..).trans hleast, List.forall_mem_cons.mpr ⟨?_, hall⟩⟩
    exact (le_max_right ..).trans hleast

theorem greatest_nonneg (sizes : List Rat) : 0 ≤ greatest sizes := (foldl_max sizes 0).1

theorem le_greatest {sizes : List Rat} {s : Rat} (h : s ∈ sizes) : s ≤ greatest sizes :=
  (foldl_max sizes 0).2 s h

theorem floorSqrt_spec (n : Nat) :
    floorSqrt n * floorSqrt n ≤ n ∧ n < (floorSqrt n + 1) * (floorSqrt n + 1) := by
  induction n with
  | zero => decide
  | succ n ih =>
    obtain ⟨hle, hlt⟩ := ih
    rw [floorSqrt]
    split
    next hreached =>
      have hnext := Nat.mul_self_lt_mul_self (Nat.lt_succ_self (floorSqrt n + 1))
      exact ⟨hreached, Nat.lt_of_le_of_lt hlt hnext⟩
    next hbelow => exact ⟨hle.trans (Nat.le_succ n), Nat.lt_of_not_le hbelow⟩

/-- The number of columns is the least one whose square is large enough. -/
theorem isLeast_columnsFor (n : Nat) : IsLeast {c : Nat | n ≤ c * c} (columnsFor n) := by
  obtain ⟨hle, hlt⟩ := floorSqrt_spec n
  rw [columnsFor]
  split
  next hsquare =>
    refine ⟨hsquare.ge, fun c hc => Nat.le_of_not_lt fun hfewer => ?_⟩
    exact absurd (Nat.mul_self_lt_mul_self hfewer) (by rw [hsquare]; exact hc.not_gt)
  next hsquare =>
    refine ⟨hlt.le, fun c hc => ?_⟩
    have hc : n ≤ c * c := hc
    have hroot : floorSqrt n * floorSqrt n < c * c := (hle.lt_of_ne hsquare).trans_le hc
    exact Nat.mul_self_lt_mul_self_iff.mp hroot

/-- The number of columns is the square root, rounded up. -/
theorem columnsFor_eq_ceil (n : Nat) : columnsFor n = ⌈Real.sqrt n⌉₊ := by
  refine (isLeast_columnsFor n).unique ⟨?_, fun c hc => ?_⟩
  · have hceil : (n : ℝ) ≤ (⌈Real.sqrt n⌉₊ : ℝ) ^ 2 := (Real.sqrt_le_iff.mp (Nat.le_ceil _)).2
    rw [sq] at hceil
    exact_mod_cast hceil
  · have hc : n ≤ c * c := hc
    refine Nat.ceil_le.mpr (Real.sqrt_le_iff.mpr ⟨Nat.cast_nonneg c, ?_⟩)
    rw [sq]
    exact_mod_cast hc

theorem columnsFor_pos {n : Nat} (hn : 0 < n) : 0 < columnsFor n := by
  have hlarge : n ≤ columnsFor n * columnsFor n := (isLeast_columnsFor n).1
  exact Nat.pos_of_mul_pos_left (hn.trans_le hlarge)

/-- The widths of columns of boxes that are laid row by row. -/
def columnWidths (columns : Nat) (boxes : List (Box Rat)) : List Rat :=
  (List.range columns).map fun column =>
    greatest ((boxes.zipIdx.filter fun (_, i) => i % columns = column).map fun (b, _) => b.width)

/-- The heights of rows of so many boxes. -/
def rowHeights (columns : Nat) (boxes : List (Box Rat)) : List Rat :=
  (List.range ((boxes.length + columns - 1) / columns)).map fun row =>
    greatest ((boxes.zipIdx.filter fun (_, i) => i / columns = row).map fun (b, _) => b.height)

private theorem widths_nonneg (columns : Nat) (boxes : List (Box Rat)) :
    ∀ w ∈ columnWidths columns boxes, 0 ≤ w := by
  intro w hw
  obtain ⟨column, -, rfl⟩ := List.mem_map.mp hw
  exact greatest_nonneg _

private theorem heights_nonneg (columns : Nat) (boxes : List (Box Rat)) :
    ∀ h ∈ rowHeights columns boxes, 0 ≤ h := by
  intro h hh
  obtain ⟨row, -, rfl⟩ := List.mem_map.mp hh
  exact greatest_nonneg _

/-- A column is as wide as each of its boxes. -/
private theorem width_le {columns k : Nat} (hc : 0 < columns) {boxes : List (Box Rat)} {b : Box Rat}
    (hb : boxes[k]? = some b) :
    ∃ w, (columnWidths columns boxes)[k % columns]? = some w ∧ b.width ≤ w := by
  have hk : k % columns < columns := Nat.mod_lt k hc
  refine ⟨_, by rw [columnWidths, List.getElem?_map, List.getElem?_range hk]; rfl, ?_⟩
  apply le_greatest
  have hmem : (b, k) ∈ boxes.zipIdx := List.mk_mem_zipIdx_iff_getElem?.mpr hb
  exact List.mem_map.mpr ⟨(b, k), List.mem_filter.mpr ⟨hmem, by simp⟩, rfl⟩

/-- A row is as high as each of its boxes. -/
private theorem height_le {columns k : Nat} (hc : 0 < columns) {boxes : List (Box Rat)} {b : Box Rat}
    (hb : boxes[k]? = some b) :
    ∃ h, (rowHeights columns boxes)[k / columns]? = some h ∧ b.height ≤ h := by
  have hlt : k < boxes.length := (List.getElem?_eq_some_iff.mp hb).1
  have hk : k / columns < (boxes.length + columns - 1) / columns := by
    have hnext : k / columns + 1 = (k + columns) / columns := by rw [Nat.add_div_right k hc]
    have hle : (k + columns) / columns ≤ (boxes.length + columns - 1) / columns :=
      Nat.div_le_div_right (by omega)
    omega
  refine ⟨_, by rw [rowHeights, List.getElem?_map, List.getElem?_range hk]; rfl, ?_⟩
  apply le_greatest
  have hmem : (b, k) ∈ boxes.zipIdx := List.mk_mem_zipIdx_iff_getElem?.mpr hb
  exact List.mem_map.mpr ⟨(b, k), List.mem_filter.mpr ⟨hmem, by simp⟩, rfl⟩

section

variable (config : Config Rat) (boxes : List (Box Rat))

/-- Where the columns of the grid start. -/
def gridLefts : List Rat :=
  starts config.gridStartX config.gridHorizontalSpacing
    (columnWidths (columnsFor boxes.length) boxes)

/-- Where the rows of the grid start. -/
def gridTops : List Rat :=
  starts config.gridStartY config.gridVerticalSpacing
    (rowHeights (columnsFor boxes.length) boxes)

theorem gridPositions_eq : gridPositions config boxes = boxes.zipIdx.map fun (b, i) =>
    b.moveTo
      ((gridLefts config boxes).getD (i % columnsFor boxes.length) config.gridStartX + b.width / 2)
      ((gridTops config boxes).getD (i / columnsFor boxes.length) config.gridStartY +
        b.height / 2) :=
  rfl

/-- Boxes keep their sizes on the grid. -/
theorem sameSize_gridPositions : List.Forall₂ SameSize (gridPositions config boxes) boxes := by
  rw [gridPositions_eq, List.forall₂_map_left_iff]
  conv => rhs; rw [← List.zipIdx_map_fst 0 boxes]
  rw [List.forall₂_map_right_iff, List.forall₂_same]
  exact fun p _ => ⟨rfl, rfl⟩

/-- A stretch starts for every size. -/
private theorem start_of_size (start gap : Rat) {size : Rat} {sizes : List Rat} {k : Nat}
    (h : sizes[k]? = some size) : ∃ x, (starts start gap sizes)[k]? = some x := by
  have hk : k < (starts start gap sizes).length := by
    rw [length_starts]
    exact (List.getElem?_eq_some_iff.mp h).1
  exact ⟨_, List.getElem?_eq_getElem hk⟩

/-- The cell of a box: its left and top edges are where its column and its row start. -/
private theorem cell_at {k : Nat} {cell : Box Rat}
    (hk : (gridPositions config boxes)[k]? = some cell) :
    (∃ w, (columnWidths (columnsFor boxes.length) boxes)[k % columnsFor boxes.length]? = some w ∧
        (gridLefts config boxes)[k % columnsFor boxes.length]? = some cell.left ∧
        cell.right ≤ cell.left + w) ∧
      ∃ h, (rowHeights (columnsFor boxes.length) boxes)[k / columnsFor boxes.length]? = some h ∧
        (gridTops config boxes)[k / columnsFor boxes.length]? = some cell.top ∧
        cell.bottom ≤ cell.top + h := by
  rw [gridPositions_eq, List.getElem?_map, List.getElem?_zipIdx, Option.map_map] at hk
  obtain ⟨b, hb, hcell⟩ := Option.map_eq_some_iff.mp hk
  simp only [Function.comp_apply, Nat.zero_add] at hcell
  have hlt : k < boxes.length := (List.getElem?_eq_some_iff.mp hb).1
  have hcolumns := columnsFor_pos (Nat.zero_lt_of_lt hlt)
  obtain ⟨w, hw, hbw⟩ := width_le hcolumns hb
  obtain ⟨h, hh, hbh⟩ := height_le hcolumns hb
  obtain ⟨x, hx⟩ := start_of_size config.gridStartX config.gridHorizontalSpacing hw
  obtain ⟨y, hy⟩ := start_of_size config.gridStartY config.gridVerticalSpacing hh
  rw [← gridLefts] at hx
  rw [← gridTops] at hy
  rw [List.getD_eq_getElem?_getD, List.getD_eq_getElem?_getD, hx, hy, Option.getD_some,
    Option.getD_some] at hcell
  have hleft : cell.left = x := by
    rw [← hcell, Box.left_eq, Box.moveTo]
    ring
  have htop : cell.top = y := by
    rw [← hcell, Box.top_eq, Box.moveTo]
    ring
  have hright : cell.right = x + b.width := by
    rw [← hcell, Box.right_eq, Box.moveTo]
    ring
  have hbottom : cell.bottom = y + b.height := by
    rw [← hcell, Box.bottom_eq, Box.moveTo]
    ring
  exact ⟨⟨w, hw, by rw [hx, hleft], by linarith⟩, h, hh, by rw [hy, htop], by linarith⟩

/-- Cells in columns and rows that start at the given places, row by row. -/
structure IsGrid (config : Config Rat) (lefts tops : List Rat) (cells : List (Box Rat)) :
    Prop where
  /-- Every cell lies in a column and in a row, and starts with them. -/
  cell : ∀ i b, cells[i]? = some b →
    lefts[i % lefts.length]? = some b.left ∧ tops[i / lefts.length]? = some b.top
  start : ∀ b ∈ cells, config.gridStartX ≤ b.left ∧ config.gridStartY ≤ b.top
  columns : ∀ i j a b, cells[i]? = some a → cells[j]? = some b →
    i % lefts.length < j % lefts.length → a.right + config.gridHorizontalSpacing ≤ b.left
  rows : ∀ i j a b, cells[i]? = some a → cells[j]? = some b →
    i / lefts.length < j / lefts.length → a.bottom + config.gridVerticalSpacing ≤ b.top

theorem length_gridLefts : (gridLefts config boxes).length = columnsFor boxes.length := by
  rw [gridLefts, length_starts, columnWidths, List.length_map, List.length_range]

theorem isGrid_gridPositions (hc : config.IsNonneg) : IsGrid config (gridLefts config boxes)
    (gridTops config boxes) (gridPositions config boxes) := by
  have hwidths := widths_nonneg (columnsFor boxes.length) boxes
  have hheights := heights_nonneg (columnsFor boxes.length) boxes
  constructor
  · intro i b hb
    obtain ⟨⟨w, -, hleft, -⟩, h, -, htop, -⟩ := cell_at config boxes hb
    rw [length_gridLefts]
    exact ⟨hleft, htop⟩
  · intro b hb
    obtain ⟨i, hi⟩ := List.mem_iff_getElem?.mp hb
    obtain ⟨⟨w, -, hleft, -⟩, h, -, htop, -⟩ := cell_at config boxes hi
    exact ⟨starts_le (hc .gridHorizontalSpacing) hwidths _ _ (List.mem_of_getElem? hleft),
      starts_le (hc .gridVerticalSpacing) hheights _ _ (List.mem_of_getElem? htop)⟩
  · intro i j a b ha hb hij
    rw [length_gridLefts] at hij
    obtain ⟨⟨w, hw, hleft, hright⟩, -⟩ := cell_at config boxes ha
    obtain ⟨⟨-, -, hleft', -⟩, -⟩ := cell_at config boxes hb
    have hapart := starts_apart (hc .gridHorizontalSpacing) hwidths _ hij hleft hleft' hw
    exact (add_le_add_left hright _).trans hapart
  · intro i j a b ha hb hij
    rw [length_gridLefts] at hij
    obtain ⟨-, h, hh, htop, hbottom⟩ := cell_at config boxes ha
    obtain ⟨-, -, -, htop', -⟩ := cell_at config boxes hb
    have hapart := starts_apart (hc .gridVerticalSpacing) hheights _ hij htop htop' hh
    exact (add_le_add_left hbottom _).trans hapart

end

/-- Different cells are in different columns, or one is in a row below the other. -/
private theorem column_or_row (columns : Nat) {i j : Nat} (h : i < j) :
    i % columns < j % columns ∨ j % columns < i % columns ∨ i / columns < j / columns := by
  have hi := Nat.div_add_mod i columns
  have hj := Nat.div_add_mod j columns
  rcases Nat.lt_trichotomy (i % columns) (j % columns) with hlt | heq | hlt
  · exact .inl hlt
  · refine .inr (.inr (Nat.lt_of_not_le fun hge => ?_))
    have hmul := Nat.mul_le_mul_left columns hge
    omega
  · exact .inr (.inl hlt)

/-- The boxes of a grid are clear of one another. -/
theorem IsGrid.clear {config : Config Rat} (hc : config.IsNonneg) {lefts tops : List Rat}
    {cells : List (Box Rat)} (h : IsGrid config lefts tops cells) :
    cells.Pairwise fun a b => a.intersects b = false := by
  have hx : 0 ≤ config.gridHorizontalSpacing := hc .gridHorizontalSpacing
  have hy : 0 ≤ config.gridVerticalSpacing := hc .gridVerticalSpacing
  rw [List.pairwise_iff_getElem]
  intro i j hi hj hij
  have ha := List.getElem?_eq_getElem hi
  have hb := List.getElem?_eq_getElem hj
  rw [Bool.eq_false_iff, Ne, intersects_iff]
  rintro ⟨hleft, hright, -, hbottom⟩
  rcases column_or_row lefts.length hij with hlt | hlt | hlt
  · have hapart := h.columns i j _ _ ha hb hlt
    linarith
  · have hapart := h.columns j i _ _ hb ha hlt
    linarith
  · have hapart := h.rows i j _ _ ha hb hlt
    linarith

/-- The grid has the least number of columns whose square is large enough. Its boxes keep their order
and their sizes, lie row by row in its columns and rows, which start with them, and no box lies before
the start of the grid. Columns and rows are apart by at least the spacing that is set for them. -/
theorem gridPositions_spaced (config : Config Rat) (hc : config.IsNonneg) (boxes : List (Box Rat)) :
    IsLeast {c : Nat | boxes.length ≤ c * c} (gridLefts config boxes).length ∧
    List.Forall₂ SameSize (gridPositions config boxes) boxes ∧
    IsGrid config (gridLefts config boxes) (gridTops config boxes) (gridPositions config boxes) :=
  ⟨length_gridLefts config boxes ▸ isLeast_columnsFor boxes.length,
    sameSize_gridPositions config boxes, isGrid_gridPositions config boxes hc⟩

/-- A large box, a wide one and a high one. -/
def mixedTrio : List (Box Rat) := [⟨0, 0, 100, 60⟩, ⟨7, 9, 300, 40⟩, ⟨0, 0, 20, 500⟩]

theorem gridPositions_spaced_mixedTrio : (Config.standard : Config Rat).IsNonneg ∧
    IsLeast {c : Nat | 3 ≤ c * c} (gridLefts .standard mixedTrio).length ∧
    IsGrid .standard (gridLefts .standard mixedTrio) (gridTops .standard mixedTrio)
      (gridPositions .standard mixedTrio) ∧
    ∀ a b, (gridPositions .standard mixedTrio)[0]? = some a →
      (gridPositions .standard mixedTrio)[1]? = some b → a.right + 200 ≤ b.left := by
  obtain ⟨hleast, -, hgrid⟩ := gridPositions_spaced .standard standard_isNonneg mixedTrio
  refine ⟨standard_isNonneg, hleast, hgrid, fun a b ha hb => ?_⟩
  exact hgrid.columns 0 1 a b ha hb (by decide +kernel)

end ComponentDiagram.Layout
