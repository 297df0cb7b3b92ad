import ComponentDiagram.Proofs.Model.Forest

/-! Forests by depth: the nodes with the depth they lie at, and what is left where all nodes below a
depth are cut off. -/
namespace ComponentDiagram

namespace Tree

variable {β γ : Type}

mutual

/-- What the nodes of a tree carry, in pre-order and each with its depth, where the root lies at the
given one. -/
def leveled (depth : Nat) : Tree β → List (Nat × β)
  | node v ts => (depth, v) :: forestLeveled (depth + 1) ts

def forestLeveled (depth : Nat) : List (Tree β) → List (Nat × β)
  | [] => []
  | t :: ts => leveled depth t ++ forestLeveled depth ts

end

mutual

/-- The tree without the nodes at the limit or deeper, if its root is not one of them. -/
def prune (limit depth : Nat) : Tree β → List (Tree β)
  | node v ts => if depth < limit then [node v (forestPrune limit (depth + 1) ts)] else []

def forestPrune (limit depth : Nat) : List (Tree β) → List (Tree β)
  | [] => []
  | t :: ts => prune limit depth t ++ forestPrune limit depth ts

end

/-! ## Depths -/

theorem forestLeveled_append (depth : Nat) (ts us : List (Tree β)) :
    forestLeveled depth (ts ++ us) = forestLeveled depth ts ++ forestLeveled depth us := by
  induction ts with
  | nil => rfl
  | cons t ts ih => rw [List.cons_append, forestLeveled, forestLeveled, ih, List.append_assoc]

mutual

theorem leveled_values (depth : Nat) : (t : Tree β) → (leveled depth t).map Prod.snd = values [t]
  | node v ts => by
    rw [leveled, List.map_cons, forestLeveled_values (depth + 1) ts, values_node]

theorem forestLeveled_values (depth : Nat) :
    (ts : List (Tree β)) → (forestLeveled depth ts).map Prod.snd = values ts
  | [] => rfl
  | t :: ts => by
    rw [forestLeveled, List.map_append, leveled_values depth t, forestLeveled_values depth ts,
      values_cons t ts]

end

mutual

/-- Nothing of a tree lies less deep than its root. -/
theorem depth_le_of_leveled {depth : Nat} : {t : Tree β} → ∀ p ∈ leveled depth t, depth ≤ p.1
  | node v ts => by
    rw [leveled, List.forall_mem_cons]
    exact ⟨le_rfl, fun p hp => Nat.le_of_succ_le (depth_le_of_forestLeveled p hp)⟩

theorem depth_le_of_forestLeveled {depth : Nat} :
    {ts : List (Tree β)} → ∀ p ∈ forestLeveled depth ts, depth ≤ p.1
  | [] => List.forall_mem_nil _
  | t :: ts => by
    rw [forestLeveled, List.forall_mem_append]
    exact ⟨depth_le_of_leveled, depth_le_of_forestLeveled⟩

end

section

variable (f : β → γ)

mutual

theorem leveled_map (depth : Nat) : (t : Tree β) →
    leveled depth (map f t) = (leveled depth t).map fun p => (p.1, f p.2)
  | node v ts => by rw [map, leveled, leveled, forestLeveled_map (depth + 1) ts, List.map_cons]

theorem forestLeveled_map (depth : Nat) : (ts : List (Tree β)) →
    forestLeveled depth (forestMap f ts) = (forestLeveled depth ts).map fun p => (p.1, f p.2)
  | [] => rfl
  | t :: ts => by
    rw [forestMap, forestLeveled, forestLeveled, leveled_map depth t, forestLeveled_map depth ts,
      List.map_append]

end

end

/-! ## Pruning -/

variable {limit depth : Nat}

theorem forestPrune_append (limit depth : Nat) (ts us : List (Tree β)) :
    forestPrune limit depth (ts ++ us) =
      forestPrune limit depth ts ++ forestPrune limit depth us := by
  induction ts with
  | nil => rfl
  | cons t ts ih => rw [List.cons_append, forestPrune, forestPrune, ih, List.append_assoc]

theorem forestPrune_singleton (limit depth : Nat) (t : Tree β) :
    forestPrune limit depth [t] = prune limit depth t :=
  List.append_nil _

/-- Nothing is left of a forest that lies too deep. -/
theorem forestPrune_of_le (h : limit ≤ depth) (ts : List (Tree β)) :
    forestPrune limit depth ts = [] := by
  induction ts with
  | nil => rfl
  | cons t ts ih =>
    cases t with
    | node v us => rw [forestPrune, prune, if_neg (Nat.not_lt.mpr h), ih, List.append_nil]

mutual

/-- What is left are the nodes that lie less deep than the limit, in their order. -/
theorem leveled_prune (limit : Nat) : (depth : Nat) → (t : Tree β) →
    forestLeveled depth (prune limit depth t) = (leveled depth t).filter (·.1 < limit)
  | depth, node v ts => by
    rw [prune]
    split
    · rename_i h
      rw [forestLeveled, forestLeveled, List.append_nil, leveled, leveled,
        forestLeveled_prune limit (depth + 1) ts, List.filter_cons_of_pos (by simpa using h)]
    · rename_i h
      refine (List.filter_eq_nil_iff.mpr fun p hp => ?_).symm
      have hp := depth_le_of_leveled p hp
      simp only [decide_eq_true_eq]
      omega

theorem forestLeveled_prune (limit : Nat) : (depth : Nat) → (ts : List (Tree β)) →
    forestLeveled depth (forestPrune limit depth ts) =
      (forestLeveled depth ts).filter (·.1 < limit)
  | _, [] => rfl
  | depth, t :: ts => by
    rw [forestPrune, forestLeveled_append, leveled_prune limit depth t,
      forestLeveled_prune limit depth ts, forestLeveled, List.filter_append]

end

theorem values_forestPrune_sublist (limit depth : Nat) (ts : List (Tree β)) :
    (values (forestPrune limit depth ts)).Sublist (values ts) := by
  rw [← forestLeveled_values depth, ← forestLeveled_values depth, forestLeveled_prune]
  exact List.filter_sublist.map Prod.snd

section

variable (f : β → γ)

mutual

theorem prune_map (limit : Nat) : (depth : Nat) → (t : Tree β) →
    prune limit depth (map f t) = forestMap f (prune limit depth t)
  | depth, node v ts => by
    rw [map, prune, prune, forestPrune_map limit (depth + 1) ts]
    split <;> rfl

/-- A change to what the nodes carry changes what is left in the same way. -/
theorem forestPrune_map (limit : Nat) : (depth : Nat) → (ts : List (Tree β)) →
    forestPrune limit depth (forestMap f ts) = forestMap f (forestPrune limit depth ts)
  | _, [] => rfl
  | depth, t :: ts => by
    rw [forestMap, forestPrune, prune_map limit depth t, forestPrune_map limit depth ts,
      forestPrune, forestMap_append]

end

end

end Tree

end ComponentDiagram
