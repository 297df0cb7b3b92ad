/-! Ordered trees and forests: pre-order walks, and a change to the first tree that passes a
test. -/
namespace ComponentDiagram

/-- A node with what it carries and its children in order. -/
inductive Tree (β : Type) where
  | node (value : β) (children : List (Tree β))
deriving Repr, BEq, Inhabited

namespace Tree

variable {β γ : Type}

def value : Tree β → β
  | node v _ => v

def children : Tree β → List (Tree β)
  | node _ ts => ts

mutual

/-- A tree and all trees below it, in pre-order. -/
def subtrees : Tree β → List (Tree β)
  | node v ts => node v ts :: forestSubtrees ts

/-- All trees of a forest and below it, in pre-order. -/
def forestSubtrees : List (Tree β) → List (Tree β)
  | [] => []
  | t :: ts => subtrees t ++ forestSubtrees ts

end

/-- What the nodes of a forest carry, in pre-order. -/
def values (forest : List (Tree β)) : List β := (forestSubtrees forest).map value

/-- The first tree in pre-order whose value passes the test. -/
def find? (test : β → Bool) (forest : List (Tree β)) : Option (Tree β) :=
  (forestSubtrees forest).find? fun t => test t.value

mutual

def map (f : β → γ) : Tree β → Tree γ
  | node v ts => node (f v) (forestMap f ts)

def forestMap (f : β → γ) : List (Tree β) → List (Tree γ)
  | [] => []
  | t :: ts => map f t :: forestMap f ts

end

mutual

/-- Change the first tree in pre-order whose value passes the test; none if no value does. -/
def modifyFirst? (test : β → Bool) (change : Tree β → Tree β) : Tree β → Option (Tree β)
  | node v ts =>
    if test v then some (change (node v ts))
    else (forestModifyFirst? test change ts).map (node v ·)

def forestModifyFirst? (test : β → Bool) (change : Tree β → Tree β) :
    List (Tree β) → Option (List (Tree β))
  | [] => none
  | t :: ts =>
    match modifyFirst? test change t with
    | some changed => some (changed :: ts)
    | none => (forestModifyFirst? test change ts).map (t :: ·)

end

/-- Change the value of a tree and keep its children. -/
def withValue (change : β → β) : Tree β → Tree β
  | node v ts => node (change v) ts

mutual

theorem subtrees_map (f : β → γ) : (t : Tree β) → subtrees (map f t) = (subtrees t).map (map f)
  | node v ts => by simp [map, subtrees, forestSubtrees_map f ts]

theorem forestSubtrees_map (f : β → γ) :
    (ts : List (Tree β)) → forestSubtrees (forestMap f ts) = (forestSubtrees ts).map (map f)
  | [] => rfl
  | t :: ts => by simp [forestMap, forestSubtrees, subtrees_map f t, forestSubtrees_map f ts]

end

theorem value_map (f : β → γ) (t : Tree β) : (map f t).value = f t.value := by
  cases t
  rfl

theorem values_forestMap (f : β → γ) (forest : List (Tree β)) :
    values (forestMap f forest) = (values forest).map f := by
  simp [values, forestSubtrees_map, Function.comp_def, value_map]

end Tree

end ComponentDiagram
