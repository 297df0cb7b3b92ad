import ComponentDiagram.Proofs.Layout.Anchoring

/-! Which candidates are anchored, and in which order: those whose chain of owners ends at a root
that is no candidate, each after its owner. The others lead into a circle. -/
namespace ComponentDiagram.Layout

open Relation

variable {α : Type}

namespace Anchors

/-! ## Chains of owners -/

section

variable (candidates : Anchors α)

/-- A node and its owner. -/
def LeadsTo (node owner : String) : Prop :=
  ∃ a, candidates.get? node = some a ∧ a.owner = owner

/-- The chain of owners enters a circle. -/
def IsCircular (node : String) : Prop :=
  ∃ n, ReflTransGen candidates.LeadsTo node n ∧ TransGen candidates.LeadsTo n n

end

variable {candidates : Anchors α}

theorem LeadsTo.unique {node owner other : String} (h : candidates.LeadsTo node owner)
    (k : candidates.LeadsTo node other) : owner = other := by
  obtain ⟨a, ha, rfl⟩ := h
  obtain ⟨b, hb, rfl⟩ := k
  rw [ha] at hb
  cases hb
  rfl

theorem LeadsTo.has {node owner : String} (h : candidates.LeadsTo node owner) :
    candidates.has node = true := by
  obtain ⟨a, ha, -⟩ := h
  rw [Anchors.has, ha]
  rfl

/-- What is anchored to a node that leads into a circle does so, too. -/
theorem IsCircular.head {node owner : String} (h : candidates.LeadsTo node owner)
    (hc : candidates.IsCircular owner) : candidates.IsCircular node := by
  obtain ⟨n, hchain, hcircle⟩ := hc
  exact ⟨n, .head h hchain, hcircle⟩

/-- The owner of a node that leads into a circle does so, too. -/
theorem IsCircular.step {node : String} (h : candidates.IsCircular node) :
    ∃ owner, candidates.LeadsTo node owner ∧ candidates.IsCircular owner := by
  obtain ⟨n, hchain, hcircle⟩ := h
  rcases hchain.cases_head with rfl | ⟨owner, hstep, hrest⟩
  · obtain ⟨owner, hstep, hback⟩ := TransGen.head'_iff.mp hcircle
    exact ⟨owner, hstep, node, hback, hcircle⟩
  · exact ⟨owner, hstep, n, hrest, hcircle⟩

/-- A chain that ends leads into no circle. -/
theorem not_isCircular {node last : String} (h : ReflTransGen candidates.LeadsTo node last)
    (hlast : candidates.has last = false) : ¬ candidates.IsCircular node := by
  induction h using ReflTransGen.head_induction_on with
  | refl =>
    intro hc
    obtain ⟨owner, hstep, -⟩ := hc.step
    rw [hstep.has] at hlast
    cases hlast
  | head hstep _ ih =>
    intro hc
    obtain ⟨owner, hstep', howner⟩ := hc.step
    exact ih (hstep'.unique hstep ▸ howner)

/-! ## Settling one node -/

/-- Anchors in an order in which each comes after that of its owner. -/
inductive IsOrder (candidates : Anchors α) : Anchors α → Prop
  | nil : IsOrder candidates []
  | snoc {placed : Anchors α} {anchor : Anchor α} : IsOrder candidates placed →
      candidates.get? anchor.node = some anchor →
      (candidates.has anchor.owner = true → placed.has anchor.owner = true) →
      IsOrder candidates (placed ++ [anchor])

/-- How a node is settled, with no bound on the path of owners. -/
inductive Settles (candidates : Anchors α) :
    List String → String → Anchors α → Option (Anchors α) → Prop
  | known {visiting node settled} : settled.has node = true →
      Settles candidates visiting node settled (some settled)
  | unknown {visiting node settled} : settled.has node = false → candidates.get? node = none →
      Settles candidates visiting node settled none
  | circle {visiting node settled anchor} : settled.has node = false →
      candidates.get? node = some anchor → anchor.owner ∈ visiting →
      Settles candidates visiting node settled none
  | free {visiting node settled anchor} : settled.has node = false →
      candidates.get? node = some anchor → anchor.owner ∉ visiting →
      candidates.has anchor.owner = false →
      Settles candidates visiting node settled (some (settled ++ [anchor]))
  | owned {visiting node settled anchor before} : settled.has node = false →
      candidates.get? node = some anchor → anchor.owner ∉ visiting →
      candidates.has anchor.owner = true →
      Settles candidates (node :: visiting) anchor.owner settled (some before) →
      Settles candidates visiting node settled (some (before ++ [anchor]))
  | failed {visiting node settled anchor} : settled.has node = false →
      candidates.get? node = some anchor → anchor.owner ∉ visiting →
      candidates.has anchor.owner = true →
      Settles candidates (node :: visiting) anchor.owner settled none →
      Settles candidates visiting node settled none

end Anchors

variable {candidates : Anchors α}

/-- A path of owners that has not come back is no longer than the list of candidates. -/
theorem settles_settle {fuel : Nat} {visiting : List String} {node : String}
    {settled : Anchors α} (hd : visiting.Nodup) (hv : ∀ v ∈ visiting, candidates.has v = true)
    (hself : node ∈ visiting → candidates.LeadsTo node node)
    (hfuel : candidates.length < fuel + visiting.length) :
    candidates.Settles visiting node settled (settle candidates fuel visiting node settled) := by
  induction fuel generalizing visiting node with
  | zero =>
    have hsub : visiting ⊆ candidates.map (·.node) := fun v h => Anchors.has_iff.mp (hv v h)
    have hle := (hd.subperm hsub).length_le
    rw [List.length_map] at hle
    omega
  | succ fuel ih =>
    rw [settle]
    by_cases hknown : settled.has node = true
    · rw [if_pos hknown]
      exact .known hknown
    rw [if_neg hknown]
    rw [Bool.not_eq_true] at hknown
    rcases hanchor : candidates.get? node with _ | anchor
    · exact .unknown hknown hanchor
    simp only
    by_cases howner : anchor.owner ∈ visiting
    · rw [if_pos (List.contains_iff_mem.mpr howner)]
      exact .circle hknown hanchor howner
    rw [if_neg fun h => howner (List.contains_iff_mem.mp h)]
    by_cases hcandidate : candidates.has anchor.owner = true
    · have hstep : candidates.LeadsTo node anchor.owner := ⟨anchor, hanchor, rfl⟩
      -- Only a node that is anchored to itself is visited twice, and then its owner is known.
      have hnode : node ∉ visiting := fun h => howner (hstep.unique (hself h) ▸ h)
      have hloop : anchor.owner ∈ node :: visiting →
          candidates.LeadsTo anchor.owner anchor.owner := by
        intro h
        have heq : anchor.owner = node := (List.mem_cons.mp h).resolve_right howner
        rwa [← heq] at hstep
      have hrest := ih (List.nodup_cons.mpr ⟨hnode, hd⟩)
        (List.forall_mem_cons.mpr ⟨hstep.has, hv⟩) hloop (by rw [List.length_cons]; omega)
      rw [if_pos hcandidate]
      rcases hresult : settle candidates fuel (node :: visiting) anchor.owner settled with _ | before
      · rw [hresult] at hrest
        exact .failed hknown hanchor howner hcandidate hrest
      · rw [hresult] at hrest
        exact .owned hknown hanchor howner hcandidate hrest
    · rw [if_neg hcandidate]
      exact .free hknown hanchor howner (Bool.not_eq_true _ ▸ hcandidate)

/-- A bound beyond the number of candidates is never met. -/
theorem settles_start (candidates : Anchors α) (node : String) (settled : Anchors α) :
    candidates.Settles [] node settled
      (settle candidates (candidates.length + 1) [] node settled) :=
  settles_settle List.nodup_nil (by simp) (by simp) (Nat.lt_succ_self _)

namespace Anchors

theorem has_append {before after : Anchors α} {node : String} :
    (before ++ after).has node = true ↔ before.has node = true ∨ after.has node = true := by
  rw [has_iff, has_iff, has_iff, List.map_append, List.mem_append]

theorem has_last {before : Anchors α} {anchor : Anchor α} :
    (before ++ [anchor]).has anchor.node = true :=
  has_append.mpr (.inr (has_iff.mpr (List.mem_singleton_self _)))

/-- Settling a node adds to what is settled, in order, until the node is settled, too. -/
theorem Settles.isOrder {visiting : List String} {node : String} {settled : Anchors α}
    {result : Option (Anchors α)} (h : candidates.Settles visiting node settled result)
    (ho : candidates.IsOrder settled) :
    ∀ out, result = some out → candidates.IsOrder out ∧ out.has node = true ∧ settled <+: out := by
  induction h with
  | known hknown =>
    rintro out ⟨⟩
    exact ⟨ho, hknown, List.prefix_refl _⟩
  | unknown | circle | failed => exact nofun
  | free _ hanchor _ hfree =>
    rintro out ⟨⟩
    obtain ⟨-, rfl⟩ := get?_some hanchor
    have howner : ¬ candidates.has _ = true := Bool.not_eq_true _ ▸ hfree
    exact ⟨ho.snoc hanchor fun h => absurd h howner, has_last, List.prefix_append ..⟩
  | owned _ hanchor _ _ _ ih =>
    rintro out ⟨⟩
    obtain ⟨-, rfl⟩ := get?_some hanchor
    obtain ⟨hbefore, howner, hprefix⟩ := ih ho _ rfl
    exact ⟨hbefore.snoc hanchor fun _ => howner, has_last, hprefix.trans (List.prefix_append ..)⟩

/-- A candidate that cannot be settled leads into a circle. -/
theorem Settles.isCircular {visiting : List String} {node : String} {settled : Anchors α}
    {result : Option (Anchors α)} (h : candidates.Settles visiting node settled result)
    (hresult : result = none) (hnode : candidates.has node = true)
    (hv : ∀ v ∈ visiting, TransGen candidates.LeadsTo v node) : candidates.IsCircular node := by
  induction h with
  | known | free | owned => cases hresult
  | unknown _ hnone =>
    rw [has, hnone] at hnode
    cases hnode
  | circle _ hanchor howner => exact ⟨_, .refl, .head ⟨_, hanchor, rfl⟩ (hv _ howner)⟩
  | failed _ hanchor _ hcandidate _ ih =>
    have hstep : candidates.LeadsTo _ _ := ⟨_, hanchor, rfl⟩
    refine .head hstep (ih rfl hcandidate (List.forall_mem_cons.mpr ⟨.single hstep, ?_⟩))
    exact fun v h => (hv v h).tail hstep

/-! ## What an order holds -/

namespace IsOrder

variable {order : Anchors α} (h : candidates.IsOrder order)
include h

theorem get? {a : Anchor α} (ha : a ∈ order) : candidates.get? a.node = some a := by
  induction h with
  | nil => cases ha
  | snoc _ hanchor _ ih =>
    rcases List.mem_append.mp ha with ha | ha
    · exact ih ha
    · obtain rfl := List.mem_singleton.mp ha
      exact hanchor

/-- The chain of owners of what is placed ends. -/
theorem ends {a : Anchor α} (ha : a ∈ order) :
    ∃ last, TransGen candidates.LeadsTo a.node last ∧ candidates.has last = false := by
  induction h generalizing a with
  | nil => cases ha
  | @snoc placed anchor _ hanchor howner ih =>
    rcases List.mem_append.mp ha with ha | ha
    · exact ih ha
    obtain rfl := List.mem_singleton.mp ha
    have hstep : candidates.LeadsTo a.node a.owner := ⟨a, hanchor, rfl⟩
    cases hcandidate : candidates.has a.owner with
    | false => exact ⟨a.owner, .single hstep, hcandidate⟩
    | true =>
      obtain ⟨b, hb, hnode⟩ := List.mem_map.mp (has_iff.mp (howner hcandidate))
      obtain ⟨last, hchain, hlast⟩ := ih hb
      exact ⟨last, .head hstep (hnode ▸ hchain), hlast⟩

/-- An owner that is a candidate is placed before what is anchored to it. -/
theorem owner_before {before after : Anchors α} {a : Anchor α}
    (hsplit : order = before ++ a :: after) (ho : candidates.has a.owner = true) :
    before.has a.owner = true := by
  induction h generalizing after with
  | nil => simp at hsplit
  | snoc _ _ howner ih =>
    rcases List.eq_nil_or_concat' after with rfl | ⟨after, b, rfl⟩
    · obtain ⟨rfl, hlast⟩ := List.append_inj' hsplit rfl
      cases hlast
      exact howner ho
    · rw [← List.cons_append, ← List.append_assoc] at hsplit
      exact ih (List.append_inj' hsplit rfl).1

/-- The owner of an anchor is not placed after it. -/
theorem owner_not_later (hd : (order.map (·.node)).Nodup) {before after : Anchors α} {a : Anchor α}
    (hsplit : order = before ++ a :: after) : a.owner ∉ (a :: after).map (·.node) := by
  intro hlater
  obtain ⟨b, hb, hnode⟩ := List.mem_map.mp hlater
  have hmem : b ∈ order := hsplit ▸ List.mem_append_right before hb
  have hcandidate : candidates.has a.owner = true := by
    rw [has, ← hnode, h.get? hmem]
    rfl
  have hbefore := has_iff.mp (h.owner_before hsplit hcandidate)
  rw [hsplit, List.map_append] at hd
  exact List.disjoint_of_nodup_append hd hbefore hlater

end IsOrder

end Anchors

/-! ## Settling all of them -/

/-- One more candidate is settled, or noted as circular. -/
def AnchorOrder.next (candidates : Anchors α) (order : AnchorOrder α) (anchor : Anchor α) :
    AnchorOrder α :=
  match settle candidates (candidates.length + 1) [] anchor.node order.anchors with
  | some anchors => { order with anchors }
  | none => { order with circular := order.circular ++ [anchor.node] }

theorem orderAnchors_eq (candidates : Anchors α) :
    orderAnchors candidates = candidates.foldl (AnchorOrder.next candidates) {} :=
  rfl

/-- Some candidates are sorted out: what is in order can be placed, what is noted cannot. -/
structure AnchorOrder.IsSorted (candidates done : Anchors α) (order : AnchorOrder α) : Prop where
  ordered : candidates.IsOrder order.anchors
  circular : ∀ n ∈ order.circular, candidates.has n = true ∧ candidates.IsCircular n
  sorted : ∀ a ∈ done, order.anchors.has a.node = true ∨ a.node ∈ order.circular

theorem AnchorOrder.IsSorted.next {done : Anchors α} {order : AnchorOrder α}
    (h : order.IsSorted candidates done) {anchor : Anchor α} (ha : anchor ∈ candidates) :
    (order.next candidates anchor).IsSorted candidates (done ++ [anchor]) := by
  have hnode : candidates.has anchor.node = true :=
    Anchors.has_iff.mpr (List.mem_map_of_mem ha)
  have hsettles := settles_start candidates anchor.node order.anchors
  rw [AnchorOrder.next]
  rcases hresult : settle candidates (candidates.length + 1) [] anchor.node order.anchors
    with _ | anchors
  · have hcircular := hsettles.isCircular hresult hnode (by simp)
    refine ⟨h.ordered, ?_, ?_⟩
    · exact List.forall_mem_append.mpr
        ⟨h.circular, List.forall_mem_singleton.mpr ⟨hnode, hcircular⟩⟩
    · refine List.forall_mem_append.mpr ⟨fun a ha => ?_, List.forall_mem_singleton.mpr ?_⟩
      · exact (h.sorted a ha).imp_right fun h => List.mem_append_left _ h
      · exact .inr (List.mem_append_right _ (List.mem_singleton_self _))
  · obtain ⟨horder, hplaced, ⟨more, hmore⟩⟩ := hsettles.isOrder h.ordered anchors hresult
    refine ⟨horder, h.circular, ?_⟩
    refine List.forall_mem_append.mpr ⟨fun a ha => ?_, List.forall_mem_singleton.mpr (.inl hplaced)⟩
    exact (h.sorted a ha).imp_left fun h => hmore ▸ Anchors.has_append.mpr (.inl h)

theorem AnchorOrder.IsSorted.foldl {done : Anchors α} {order : AnchorOrder α}
    (h : order.IsSorted candidates done) {rest : Anchors α} (hrest : ∀ a ∈ rest, a ∈ candidates) :
    (rest.foldl (AnchorOrder.next candidates) order).IsSorted candidates (done ++ rest) := by
  induction rest generalizing done order with
  | nil => rwa [List.append_nil]
  | cons a rest ih =>
    obtain ⟨ha, hrest⟩ := List.forall_mem_cons.mp hrest
    rw [List.append_cons]
    exact ih (h.next ha) hrest

theorem isSorted_orderAnchors (candidates : Anchors α) :
    (orderAnchors candidates).IsSorted candidates candidates := by
  have hstart : ({} : AnchorOrder α).IsSorted candidates [] := ⟨.nil, by simp, by simp⟩
  rw [orderAnchors_eq]
  exact hstart.foldl fun _ ha => ha

theorem Anchors.get?_of_mem (hd : (candidates.map (·.node)).Nodup) {a : Anchor α}
    (ha : a ∈ candidates) : candidates.get? a.node = some a := by
  have hsome := has_iff.mpr (List.mem_map_of_mem (f := (·.node)) ha)
  obtain ⟨b, hb⟩ := Option.isSome_iff_exists.mp hsome
  obtain ⟨hmem, hnode⟩ := get?_some hb
  rw [hb, List.inj_on_of_nodup_map hd hmem ha hnode]

section

variable (hd : (candidates.map (·.node)).Nodup) {a : Anchor α} (ha : a ∈ candidates)
include hd ha

/-- A candidate is left out exactly if it leads into a circle. -/
theorem not_mem_orderAnchors :
    a ∉ (orderAnchors candidates).anchors ↔ candidates.IsCircular a.node := by
  have h := isSorted_orderAnchors candidates
  constructor
  · intro hout
    rcases h.sorted a ha with hin | hcircular
    · obtain ⟨b, hb, hnode⟩ := List.mem_map.mp (Anchors.has_iff.mp hin)
      have hget := h.ordered.get? hb
      rw [hnode, Anchors.get?_of_mem hd ha] at hget
      cases hget
      exact absurd hb hout
    · exact (h.circular a.node hcircular).2
  · intro hc hin
    obtain ⟨last, hchain, hlast⟩ := h.ordered.ends hin
    exact Anchors.not_isCircular hchain.to_reflTransGen hlast hc

/-- A candidate is kept exactly if its chain of owners ends. -/
theorem mem_orderAnchors : a ∈ (orderAnchors candidates).anchors ↔
    ∃ last, TransGen candidates.LeadsTo a.node last ∧ candidates.has last = false := by
  have h := isSorted_orderAnchors candidates
  refine ⟨h.ordered.ends, ?_⟩
  rintro ⟨last, hchain, hlast⟩
  by_contra hout
  exact Anchors.not_isCircular hchain.to_reflTransGen hlast ((not_mem_orderAnchors hd ha).mp hout)

end

end ComponentDiagram.Layout
