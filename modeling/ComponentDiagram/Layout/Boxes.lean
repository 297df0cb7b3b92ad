import ComponentDiagram.Layout.Box

/-! Boxes by the id of their node, in the order in which the ids first came. -/
namespace ComponentDiagram.Layout

abbrev Boxes (α : Type) := List (String × Box α)

namespace Boxes

variable {α : Type}

def get? (boxes : Boxes α) (id : String) : Option (Box α) := boxes.lookup id

/-- Set the box of an id; a new id comes last. -/
def put (id : String) (box : Box α) : Boxes α → Boxes α
  | [] => [(id, box)]
  | (key, old) :: rest =>
    if key = id then (key, box) :: rest else (key, old) :: put id box rest

/-- The boxes in the order of their ids. -/
def sorted (boxes : Boxes α) : Boxes α := boxes.mergeSort fun a b => !(decide (b.1 < a.1))

/-- Move the box of an id, if it has one. -/
def translate [Scalar α] (boxes : Boxes α) (id : String) (dx dy : α) : Boxes α :=
  match boxes.get? id with
  | some box => boxes.put id (box.translate dx dy)
  | none => boxes

theorem get?_cons (key id : String) (box : Box α) (rest : Boxes α) :
    get? ((key, box) :: rest) id = if id = key then some box else get? rest id := by
  by_cases h : id = key
  · simp [get?, h]
  · simp [get?, List.lookup_cons, beq_eq_false_iff_ne.mpr h, h]

theorem get?_put (boxes : Boxes α) (id key : String) (box : Box α) :
    (boxes.put id box).get? key = if key = id then some box else boxes.get? key := by
  induction boxes with
  | nil => simp [put, get?_cons]
  | cons entry rest ih =>
    obtain ⟨other, old⟩ := entry
    by_cases h : other = id
    · subst h
      by_cases k : key = other <;> simp [put, get?_cons, k]
    · by_cases k : key = other
      · subst k
        simp [put, get?_cons, h]
      · simp [put, get?_cons, h, k, ih]

end Boxes

end ComponentDiagram.Layout
