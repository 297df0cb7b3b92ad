import ComponentDiagram.Model.Tree
import Mathlib

/-! Forests: what holds of all nodes, the nodes in pre-order, and a change to the first node that
passes a test. At the end, lists that are related entry by entry. -/
namespace ComponentDiagram

namespace Tree

variable {β γ : Type}

mutual

/-- What each node carries passes, and none lies as deep as the limit. -/
def AllBelow (limit : Nat) (test : β → Prop) (depth : Nat) : Tree β → Prop
  | node v ts => (test v ∧ depth < limit) ∧ ForestAllBelow limit test (depth + 1) ts

def ForestAllBelow (limit : Nat) (test : β → Prop) (depth : Nat) : List (Tree β) → Prop
  | [] => True
  | t :: ts => AllBelow limit test depth t ∧ ForestAllBelow limit test depth ts

end

mutual

theorem map_id : (t : Tree β) → map id t = t
  | node v ts => by rw [map, forestMap_id ts, id]

theorem forestMap_id : (ts : List (Tree β)) → forestMap id ts = ts
  | [] => rfl
  | t :: ts => by rw [forestMap, map_id t, forestMap_id ts]

end

section

variable {δ : Type} (f : β → γ) (g : γ → δ)

mutual

theorem map_map : (t : Tree β) → map g (map f t) = map (g ∘ f) t
  | node v ts => by rw [map, map, map, forestMap_map ts, Function.comp_apply]

theorem forestMap_map : (ts : List (Tree β)) → forestMap g (forestMap f ts) = forestMap (g ∘ f) ts
  | [] => rfl
  | t :: ts => by rw [forestMap, forestMap, forestMap, map_map t, forestMap_map ts]

end

theorem forestMap_eq_map (ts : List (Tree β)) : forestMap f ts = ts.map (map f) := by
  induction ts with
  | nil => rfl
  | cons t ts ih => rw [forestMap, ih, List.map_cons]

theorem forestMap_append (ts us : List (Tree β)) :
    forestMap f (ts ++ us) = forestMap f ts ++ forestMap f us := by
  rw [forestMap_eq_map, forestMap_eq_map, forestMap_eq_map, List.map_append]

theorem children_map (t : Tree β) : (map f t).children = forestMap f t.children := by
  cases t
  rfl

end

mutual

theorem AllBelow.mono {limit depth : Nat} {test test' : β → Prop} : {t : Tree β} →
    AllBelow limit test depth t → (∀ v, test v → test' v) → AllBelow limit test' depth t
  | node v ts, ht, h => by
    rw [AllBelow] at ht ⊢
    exact ⟨⟨h v ht.1.1, ht.1.2⟩, ForestAllBelow.mono ht.2 h⟩

theorem ForestAllBelow.mono {limit depth : Nat} {test test' : β → Prop} : {ts : List (Tree β)} →
    ForestAllBelow limit test depth ts → (∀ v, test v → test' v) →
    ForestAllBelow limit test' depth ts
  | [], _, _ => trivial
  | t :: ts, ht, h => by
    rw [ForestAllBelow] at ht ⊢
    exact ⟨AllBelow.mono ht.1 h, ForestAllBelow.mono ht.2 h⟩

end

mutual

theorem AllBelow.map {limit depth : Nat} {P : β → Prop} {Q : γ → Prop} {f : β → γ}
    (hf : ∀ v, P v → Q (f v)) : {t : Tree β} → AllBelow limit P depth t →
    AllBelow limit Q depth (Tree.map f t)
  | node v ts, h => by
    rw [AllBelow] at h
    rw [Tree.map, AllBelow]
    exact ⟨⟨hf v h.1.1, h.1.2⟩, ForestAllBelow.map hf h.2⟩

theorem ForestAllBelow.map {limit depth : Nat} {P : β → Prop} {Q : γ → Prop} {f : β → γ}
    (hf : ∀ v, P v → Q (f v)) : {ts : List (Tree β)} → ForestAllBelow limit P depth ts →
    ForestAllBelow limit Q depth (forestMap f ts)
  | [], _ => trivial
  | t :: ts, h => by
    rw [ForestAllBelow] at h
    rw [forestMap, ForestAllBelow]
    exact ⟨AllBelow.map hf h.1, ForestAllBelow.map hf h.2⟩

end

/-! ## Pre-order -/

theorem forestSubtrees_append (ts us : List (Tree β)) :
    forestSubtrees (ts ++ us) = forestSubtrees ts ++ forestSubtrees us := by
  induction ts with
  | nil => rfl
  | cons t ts ih => simp [forestSubtrees, ih]

theorem values_append (ts us : List (Tree β)) : values (ts ++ us) = values ts ++ values us := by
  rw [values, forestSubtrees_append, List.map_append]
  rfl

theorem values_node (v : β) (ts : List (Tree β)) : values [node v ts] = v :: values ts := by
  simp [values, forestSubtrees, subtrees, value]

theorem values_cons (t : Tree β) (ts : List (Tree β)) : values (t :: ts) = values [t] ++ values ts :=
  values_append [t] ts

/-- Functions that agree on what a forest carries make the same of it. -/
theorem forestMap_congr_left {f g : β → γ} : {ts : List (Tree β)} →
    (∀ v ∈ values ts, f v = g v) → forestMap f ts = forestMap g ts
  | [], _ => rfl
  | .node v us :: ts, h => by
    rw [values_cons, values_node, List.forall_mem_append, List.forall_mem_cons] at h
    rw [forestMap, forestMap, map, map, h.1.1, forestMap_congr_left h.1.2,
      forestMap_congr_left h.2]

theorem forestMap_self {f : β → β} {ts : List (Tree β)} (h : ∀ v ∈ values ts, f v = v) :
    forestMap f ts = ts :=
  (forestMap_congr_left h).trans (forestMap_id ts)

/-! ## A change to the first node that passes -/

/-- There is nothing to change where no node passes. -/
theorem forestModifyFirst?_none {test : β → Bool} {change : Tree β → Tree β} :
    {ts : List (Tree β)} → (∀ v ∈ values ts, test v = false) →
    forestModifyFirst? test change ts = none
  | [], _ => rfl
  | .node v us :: ts, h => by
    rw [values_cons, values_node, List.forall_mem_append, List.forall_mem_cons] at h
    rw [forestModifyFirst?, modifyFirst?, h.1.1, forestModifyFirst?_none h.1.2,
      forestModifyFirst?_none h.2]
    rfl

section

variable {test : β → Bool} {f : β → β}

mutual

theorem modifyFirst?_values : {t t' : Tree β} → modifyFirst? test (withValue f) t = some t' →
    ∃ l v r, values [t] = l ++ v :: r ∧ test v = true ∧ values [t'] = l ++ f v :: r
  | node v ts, t', h => by
    rw [modifyFirst?] at h
    split at h
    · cases h
      exact ⟨[], v, values ts, values_node v ts, ‹_›, values_node (f v) ts⟩
    · obtain ⟨ts', hts, rfl⟩ := Option.map_eq_some_iff.mp h
      obtain ⟨l, w, r, hl, hw, hr⟩ := forestModifyFirst?_values hts
      exact ⟨v :: l, w, r, by rw [values_node, hl]; rfl, hw, by rw [values_node, hr]; rfl⟩

/-- The nodes in pre-order change at one place. -/
theorem forestModifyFirst?_values : {ts ts' : List (Tree β)} →
    forestModifyFirst? test (withValue f) ts = some ts' →
    ∃ l v r, values ts = l ++ v :: r ∧ test v = true ∧ values ts' = l ++ f v :: r
  | [], _, h => nomatch h
  | t :: ts, ts', h => by
    rw [forestModifyFirst?] at h
    split at h
    · rename_i t' ht
      cases h
      obtain ⟨l, v, r, hl, hv, hr⟩ := modifyFirst?_values ht
      refine ⟨l, v, r ++ values ts, ?_, hv, ?_⟩
      · rw [values_cons, hl, List.append_assoc, List.cons_append]
      · rw [values_cons, hr, List.append_assoc, List.cons_append]
    · obtain ⟨us, hus, rfl⟩ := Option.map_eq_some_iff.mp h
      obtain ⟨l, v, r, hl, hv, hr⟩ := forestModifyFirst?_values hus
      refine ⟨values [t] ++ l, v, r, ?_, hv, ?_⟩
      · rw [values_cons, hl, List.append_assoc]
      · rw [values_cons, hr, List.append_assoc]

end

/-- Where nothing is changed, no node passes. -/
theorem of_forestModifyFirst?_none {change : Tree β → Tree β} : {ts : List (Tree β)} →
    forestModifyFirst? test change ts = none → ∀ v ∈ values ts, test v = false
  | [], _ => List.forall_mem_nil _
  | .node v us :: ts, h => by
    rw [values_cons, values_node, List.forall_mem_append, List.forall_mem_cons]
    rw [forestModifyFirst?, modifyFirst?] at h
    cases hv : test v with
    | true => simp [hv] at h
    | false =>
      cases hus : forestModifyFirst? test change us with
      | some us' => simp [hv, hus] at h
      | none =>
        simp only [hv, hus, Bool.false_eq_true, if_false, Option.map_none,
          Option.map_eq_none_iff] at h
        exact ⟨⟨rfl, of_forestModifyFirst?_none hus⟩, of_forestModifyFirst?_none h⟩

/-- Where at most one node passes, all nodes that pass are changed. -/
theorem forestModifyFirst?_eq_forestMap : {ts ts' : List (Tree β)} →
    (values ts).Pairwise (fun v w => test v = true → test w = false) →
    forestModifyFirst? test (withValue f) ts = some ts' →
    ts' = forestMap (fun v => if test v then f v else v) ts
  | [], _, _, h => nomatch h
  | .node v us :: ts, ts', hp, h => by
    rw [values_cons, values_node, List.pairwise_append, List.pairwise_cons] at hp
    obtain ⟨⟨hv, hus⟩, hts, hacross⟩ := hp
    have hkept {us : List (Tree β)} (h : ∀ w ∈ values us, test w = false) :
        forestMap (fun v => if test v then f v else v) us = us :=
      forestMap_self fun w hw => by rw [h w hw, if_neg Bool.false_ne_true]
    rw [forestMap, map]
    rw [forestModifyFirst?, modifyFirst?] at h
    cases ht : test v with
    | true =>
      simp only [ht, if_true, Option.some.injEq] at h
      rw [hkept fun w hw => hv w hw ht, hkept fun w hw => hacross v (List.mem_cons_self ..) w hw ht,
        ← h, if_pos rfl, withValue]
    | false =>
      rw [if_neg Bool.false_ne_true]
      cases hu : forestModifyFirst? test (withValue f) us with
      | some us' =>
        simp only [ht, hu, Bool.false_eq_true, if_false, Option.map_some, Option.some.injEq] at h
        obtain ⟨l, w, r, hl, hw, -⟩ := forestModifyFirst?_values hu
        have hmem : w ∈ values us := by
          rw [hl]
          exact List.mem_append_right l (List.mem_cons_self ..)
        rw [← h, forestModifyFirst?_eq_forestMap hus hu,
          hkept fun x hx => hacross w (List.mem_cons_of_mem v hmem) x hx hw]
      | none =>
        simp only [ht, hu, Bool.false_eq_true, if_false, Option.map_none] at h
        obtain ⟨rest, hrest, rfl⟩ := Option.map_eq_some_iff.mp h
        rw [forestModifyFirst?_eq_forestMap hts hrest, hkept (of_forestModifyFirst?_none hu)]

/-- What the change does not touch stays. -/
theorem forestMap_forestModifyFirst? {g : β → γ} (hg : ∀ v, g (f v) = g v) :
    {ts ts' : List (Tree β)} → forestModifyFirst? test (withValue f) ts = some ts' →
    forestMap g ts' = forestMap g ts
  | [], _, h => nomatch h
  | .node v us :: ts, ts', h => by
    rw [forestModifyFirst?, modifyFirst?] at h
    cases ht : test v with
    | true =>
      simp only [ht, if_true, Option.some.injEq] at h
      rw [← h, forestMap, withValue, map, hg, forestMap, map]
    | false =>
      cases hu : forestModifyFirst? test (withValue f) us with
      | some us' =>
        simp only [ht, hu, Bool.false_eq_true, if_false, Option.map_some, Option.some.injEq] at h
        rw [← h, forestMap, map, forestMap_forestModifyFirst? hg hu, forestMap, map]
      | none =>
        simp only [ht, hu, Bool.false_eq_true, if_false, Option.map_none] at h
        obtain ⟨rest, hrest, rfl⟩ := Option.map_eq_some_iff.mp h
        rw [forestMap, forestMap_forestModifyFirst? hg hrest, forestMap]

variable {test' : γ → Bool} {f' : γ → γ} {g : β → γ}

mutual

/-- The first node that passes is changed in a mapped tree as it is in the tree. -/
theorem modifyFirst?_map (ht : ∀ v, test' (g v) = test v) (hf : ∀ v, g (f v) = f' (g v)) :
    (t : Tree β) → modifyFirst? test' (withValue f') (map g t) =
      (modifyFirst? test (withValue f) t).map (map g)
  | node v ts => by
    rw [map, modifyFirst?, modifyFirst?, ht]
    split
    · rw [Option.map_some, withValue, withValue, map, hf]
    · rw [forestModifyFirst?_map ht hf ts, Option.map_map, Option.map_map]
      rfl

theorem forestModifyFirst?_map (ht : ∀ v, test' (g v) = test v) (hf : ∀ v, g (f v) = f' (g v)) :
    (ts : List (Tree β)) → forestModifyFirst? test' (withValue f') (forestMap g ts) =
      (forestModifyFirst? test (withValue f) ts).map (forestMap g)
  | [] => rfl
  | t :: ts => by
    rw [forestMap, forestModifyFirst?, forestModifyFirst?, modifyFirst?_map ht hf t]
    cases modifyFirst? test (withValue f) t with
    | some changed => rfl
    | none =>
      simp only [Option.map_none, forestModifyFirst?_map ht hf ts, Option.map_map]
      rfl

end

variable {limit : Nat} {P : β → Prop}

mutual

theorem AllBelow.modifyFirst? {depth : Nat} : {t t' : Tree β} → AllBelow limit P depth t →
    Tree.modifyFirst? test (withValue f) t = some t' → (∀ v, P v → P (f v)) →
    AllBelow limit P depth t'
  | node v ts, t', ht, h, hf => by
    rw [AllBelow] at ht
    rw [Tree.modifyFirst?] at h
    split at h
    · cases h
      rw [withValue, AllBelow]
      exact ⟨⟨hf v ht.1.1, ht.1.2⟩, ht.2⟩
    · obtain ⟨ts', hts, rfl⟩ := Option.map_eq_some_iff.mp h
      rw [AllBelow]
      exact ⟨ht.1, ForestAllBelow.modifyFirst? ht.2 hts hf⟩

theorem ForestAllBelow.modifyFirst? {depth : Nat} : {ts ts' : List (Tree β)} →
    ForestAllBelow limit P depth ts → forestModifyFirst? test (withValue f) ts = some ts' →
    (∀ v, P v → P (f v)) → ForestAllBelow limit P depth ts'
  | [], _, _, h, _ => nomatch h
  | t :: ts, ts', ht, h, hf => by
    rw [ForestAllBelow] at ht
    rw [forestModifyFirst?] at h
    split at h
    · rename_i t' ht'
      cases h
      rw [ForestAllBelow]
      exact ⟨AllBelow.modifyFirst? ht.1 ht' hf, ht.2⟩
    · obtain ⟨us, hus, rfl⟩ := Option.map_eq_some_iff.mp h
      rw [ForestAllBelow]
      exact ⟨ht.1, ForestAllBelow.modifyFirst? ht.2 hus hf⟩

end

end

theorem ForestAllBelow.append {limit depth : Nat} {P : β → Prop} {ts us : List (Tree β)}
    (ht : ForestAllBelow limit P depth ts) (hu : ForestAllBelow limit P depth us) :
    ForestAllBelow limit P depth (ts ++ us) := by
  induction ts with
  | nil => exact hu
  | cons t ts ih =>
    rw [ForestAllBelow] at ht
    rw [List.cons_append, ForestAllBelow]
    exact ⟨ht.1, ih ht.2⟩

theorem ForestAllBelow.values {limit depth : Nat} {P : β → Prop} : {ts : List (Tree β)} →
    ForestAllBelow limit P depth ts → ∀ v ∈ Tree.values ts, P v
  | [], _, v, hv => by cases hv
  | .node w us :: ts, h, v, hv => by
    rw [ForestAllBelow, AllBelow] at h
    rw [values_cons, values_node, List.mem_append, List.mem_cons] at hv
    rcases hv with (rfl | hv) | hv
    · exact h.1.1.1
    · exact ForestAllBelow.values h.1.2 v hv
    · exact ForestAllBelow.values h.2 v hv

/-- Functions that agree on what passes make the same of a forest that does. -/
theorem forestMap_congr {limit depth : Nat} {P : β → Prop} {f g : β → γ} {ts : List (Tree β)}
    (ht : ForestAllBelow limit P depth ts) (h : ∀ v, P v → f v = g v) :
    forestMap f ts = forestMap g ts :=
  forestMap_congr_left fun v hv => h v (ht.values v hv)

/-- What holds of all nodes in pre-order is added to what holds of all nodes. -/
theorem ForestAllBelow.and_values {limit depth : Nat} {P Q R : β → Prop} : {ts : List (Tree β)} →
    ForestAllBelow limit P depth ts → (∀ v ∈ Tree.values ts, Q v) → (∀ v, P v → Q v → R v) →
    ForestAllBelow limit R depth ts
  | [], _, _, _ => trivial
  | .node w us :: ts, h, hv, hr => by
    rw [ForestAllBelow, AllBelow] at h
    rw [values_cons, values_node, List.forall_mem_append, List.forall_mem_cons] at hv
    rw [ForestAllBelow, AllBelow]
    exact ⟨⟨⟨hr w h.1.1.1 hv.1.1, h.1.1.2⟩, ForestAllBelow.and_values h.1.2 hv.1.2 hr⟩,
      ForestAllBelow.and_values h.2 hv.2 hr⟩

/-! ## Deciding what holds of all nodes -/

section

variable {β : Type} {test : β → Prop} [DecidablePred test] {limit : Nat}

mutual

def decideAllBelow (depth : Nat) : (t : Tree β) → Decidable (t.AllBelow limit test depth)
  | .node v ts =>
    have := decideForestAllBelow (depth + 1) ts
    inferInstanceAs (Decidable ((test v ∧ depth < limit) ∧ _))

def decideForestAllBelow (depth : Nat) :
    (ts : List (Tree β)) → Decidable (ForestAllBelow limit test depth ts)
  | [] => .isTrue trivial
  | t :: ts =>
    have := decideAllBelow depth t
    have := decideForestAllBelow depth ts
    inferInstanceAs (Decidable (_ ∧ _))

end

instance (depth : Nat) (ts : List (Tree β)) :
    Decidable (ForestAllBelow limit test depth ts) :=
  decideForestAllBelow depth ts

end

end Tree

/-- What stands on the right of related lists is related to something on the left. -/
theorem exists_mem_of_forall₂ {β γ : Type} {R : β → γ → Prop} {l : List β} {m : List γ}
    (h : List.Forall₂ R l m) {c : γ} (hc : c ∈ m) : ∃ b ∈ l, R b c := by
  obtain ⟨i, hi, rfl⟩ := List.getElem_of_mem hc
  have hl : i < l.length := h.length_eq ▸ hi
  exact ⟨l[i], List.getElem_mem hl, h.get hl hi⟩

end ComponentDiagram
