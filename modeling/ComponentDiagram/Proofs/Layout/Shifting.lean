import ComponentDiagram.Layout.Sizing
import ComponentDiagram.Proofs.Build.FlatView

/-! What changes when a box is set, when a component is moved with all that lies below it, and when
a child is put under a stack. -/
namespace ComponentDiagram.Layout

namespace Boxes

variable {α : Type}

def ids (boxes : Boxes α) : List String := boxes.map (·.1)

theorem mem_ids {boxes : Boxes α} {id : String} :
    id ∈ boxes.ids ↔ ∃ box, boxes.get? id = some box := by
  induction boxes with
  | nil => simp [ids, get?]
  | cons entry rest ih =>
    obtain ⟨key, box⟩ := entry
    rw [get?_cons, ids, List.map_cons, List.mem_cons, ← ids, ih]
    by_cases h : id = key <;> simp [h]

theorem ids_put (boxes : Boxes α) (id : String) (box : Box α) :
    (boxes.put id box).ids = if id ∈ boxes.ids then boxes.ids else boxes.ids ++ [id] := by
  induction boxes with
  | nil => simp [ids, put]
  | cons entry rest ih =>
    obtain ⟨key, old⟩ := entry
    by_cases h : key = id
    · simp [ids, put, h]
    · have hne : ¬ id = key := fun he => h he.symm
      simp only [ids, List.map_cons, put, if_neg h, List.mem_cons, hne, false_or] at ih ⊢
      rw [ih]
      by_cases hid : id ∈ rest.map (·.1) <;> simp [hid]

theorem nodup_put {boxes : Boxes α} (h : boxes.ids.Nodup) (id : String) (box : Box α) :
    (boxes.put id box).ids.Nodup := by
  rw [ids_put]
  split
  · exact h
  · rename_i hid
    exact List.nodup_append.mpr ⟨h, List.nodup_singleton id, fun a ha b hb => by
      rw [List.mem_singleton.mp hb]
      rintro rfl
      exact hid ha⟩

variable [Scalar α]

theorem get?_translate (boxes : Boxes α) (id key : String) (dx dy : α) :
    (boxes.translate id dx dy).get? key =
      if key = id then (boxes.get? key).map (·.translate dx dy) else boxes.get? key := by
  rw [translate]
  cases hb : boxes.get? id with
  | none =>
    by_cases h : key = id
    · simp [h, hb]
    · simp [h]
  | some box =>
    by_cases h : key = id
    · simp [h, hb, get?_put]
    · simp [h, get?_put]

theorem ids_translate (boxes : Boxes α) (id : String) (dx dy : α) :
    (boxes.translate id dx dy).ids = boxes.ids := by
  rw [translate]
  split
  · rename_i box hb
    rw [ids_put, if_pos (mem_ids.mpr ⟨box, hb⟩)]
  · rfl

/-- Different boxes are moved once each. -/
theorem get?_translateAll {moved : List String} (h : moved.Nodup) (boxes : Boxes α) (key : String)
    (dx dy : α) : (moved.foldl (fun bs id => bs.translate id dx dy) boxes).get? key =
      if key ∈ moved then (boxes.get? key).map (·.translate dx dy) else boxes.get? key := by
  induction moved generalizing boxes with
  | nil => simp
  | cons id moved ih =>
    obtain ⟨hid, hmoved⟩ := List.nodup_cons.mp h
    rw [List.foldl_cons, ih hmoved, get?_translate]
    by_cases hk : key = id
    · subst hk
      simp [hid]
    · simp [hk]

theorem ids_translateAll (moved : List String) (boxes : Boxes α) (dx dy : α) :
    (moved.foldl (fun bs id => bs.translate id dx dy) boxes).ids = boxes.ids := by
  induction moved generalizing boxes with
  | nil => rfl
  | cons id moved ih => rw [List.foldl_cons, ih, ids_translate]

end Boxes

theorem ids_shift {α : Type} [Scalar α] (d : Diagram α) (id : String) (boxes : Boxes α)
    (dx dy : α) : (shift d id boxes dx dy).ids = boxes.ids := by
  rw [shift]
  split
  · rfl
  · exact Boxes.ids_translateAll ..

theorem Box.translate_zero (b : Box Rat) : b.translate 0 0 = b :=
  congrArg₂ (Box.mk · · b.width b.height) (Rat.add_zero b.x) (Rat.add_zero b.y)

theorem map_translate_zero (box : Option (Box Rat)) : box.map (·.translate 0 0) = box := by
  cases box with
  | none => rfl
  | some box => rw [Option.map_some, Box.translate_zero]

/-- A component is moved with all that lies below it, and nothing else is. -/
theorem get?_shift {d : Diagram Rat} {forest : List (ComponentTree Rat)} (h : FlatView d forest)
    {t : ComponentTree Rat} (ht : t ∈ Tree.forestSubtrees forest) (boxes : Boxes Rat) (dx dy : Rat)
    (key : String) : (shift d t.value.id boxes dx dy).get? key =
      if key ∈ treeIds t then (boxes.get? key).map (·.translate dx dy) else boxes.get? key := by
  rw [shift]
  split
  · rename_i hzero
    obtain ⟨hx, hy⟩ := Bool.and_eq_true_iff.mp hzero
    have hdx : dx = 0 := eq_of_beq hx
    have hdy : dy = 0 := eq_of_beq hy
    rw [hdx, hdy, map_translate_zero, ite_self]
  · have hids : t.value.id :: (d.descendants t.value.id).map (·.id) = treeIds t := by
      rw [h.descendants_ids ht, treeIds]
    rw [hids]
    exact Boxes.get?_translateAll (h.nodup ht) boxes key dx dy

/-! ## Stacks -/

section

variable {α : Type} [Scalar α]

/-- The centre of one more child under a stack. -/
def Stack.centre (config : Config α) (y : α) (stack : Stack α) (box : Box α) : α :=
  match stack.last with
  | some above => above.bottom + config.childSpacing + Scalar.half box.height
  | none => y + Scalar.half box.height

theorem Stack.centre_below {config : Config α} {y : α} {stack : Stack α} {above : Box α}
    (h : stack.last = some above) (box : Box α) :
    stack.centre config y box = above.bottom + config.childSpacing + Scalar.half box.height := by
  rw [centre, h]

/-- A child's own layout is moved under the last child. -/
theorem Stack.push_eq (d : Diagram α) (config : Config α) (x y : α)
    {size : String → Boxes α → Boxes α × Box α} {stack : Stack α} {id : String} {boxes : Boxes α}
    {box : Box α} (hs : size id stack.boxes = (boxes, box)) :
    stack.push d config x y size id =
      ⟨shift d id boxes (x - box.x) (stack.centre config y box - box.y),
        (shift d id boxes (x - box.x) (stack.centre config y box - box.y)).get? id⟩ := by
  rw [Stack.push, hs]
  rfl

end

end ComponentDiagram.Layout
