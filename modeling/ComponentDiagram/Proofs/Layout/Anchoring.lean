import ComponentDiagram.Layout.Engine
import Mathlib

/-! Which roots are anchored: roots without a position, each once, and each to a port of a root. -/
namespace ComponentDiagram.Layout

variable {α : Type}

theorem Anchors.has_iff {anchors : Anchors α} {node : String} :
    anchors.has node = true ↔ node ∈ anchors.map (·.node) := by
  simp [Anchors.has, Anchors.get?, List.find?_isSome]

theorem Anchors.get?_some {anchors : Anchors α} {node : String} {anchor : Anchor α}
    (h : anchors.get? node = some anchor) : anchor ∈ anchors ∧ anchor.node = node := by
  have hnode := List.find?_some h
  exact ⟨List.mem_of_find?_eq_some h, beq_iff_eq.mp hnode⟩

/-- An anchor that may stand among the roots. -/
structure Anchor.IsProper (roots : List (FlatNode α)) (anchor : Anchor α) : Prop where
  node : ∃ r ∈ roots, r.id = anchor.node
  owner : ∃ r ∈ roots, r.id = anchor.owner
  unpinned : ∀ r ∈ roots, r.id = anchor.node → r.pinned = false

/-- Proper anchors, at most one for a root. -/
structure Anchors.IsProper (roots : List (FlatNode α)) (anchors : Anchors α) : Prop where
  proper : ∀ a ∈ anchors, a.IsProper roots
  nodup : (anchors.map (·.node)).Nodup

/-- Following a request keeps the anchors proper. -/
private theorem follow_isProper {d : Diagram α} {roots : List (FlatNode α)}
    {search : AnchorSearch α} (h : search.anchors.IsProper roots) (request : AnchorRequest) :
    (search.follow d roots request).anchors.IsProper roots := by
  rw [AnchorSearch.follow]
  cases request.port with
  | none => exact h
  | some port =>
    simp only
    split
    · exact h
    rename_i hfree
    split
    · exact h
    rename_i hroots
    split
    · rename_i p hport
      simp only [Bool.or_eq_true, not_or, Bool.not_eq_true, Bool.not_eq_eq_eq_not, Bool.not_true,
        Bool.not_eq_false] at hfree hroots
      obtain ⟨hnew, hunpinned⟩ := hfree
      obtain ⟨hnode, howner⟩ := hroots
      refine ⟨?_, ?_⟩
      · intro a ha
        rcases List.mem_append.mp ha with ha | ha
        · exact h.proper a ha
        · rw [List.mem_singleton.mp ha]
          refine ⟨?_, ?_, ?_⟩
          · simpa using hnode
          · simpa using howner
          · simpa using hunpinned
      · rw [List.map_append, List.map_singleton]
        refine List.nodup_append.mpr ⟨h.nodup, List.nodup_singleton _, ?_⟩
        intro node hin other hother
        rw [List.mem_singleton.mp hother]
        rintro rfl
        rw [Anchors.has_iff.mpr hin] at hnew
        cases hnew
    · exact h

/-- The anchors that are found are proper. -/
theorem findAnchors_isProper (d : Diagram α) (roots : List (FlatNode α)) :
    (findAnchors d roots).anchors.IsProper roots := by
  rw [findAnchors]
  generalize hs : ({} : AnchorSearch α) = search
  have h : search.anchors.IsProper roots := by
    rw [← hs]
    exact ⟨by simp, List.nodup_nil⟩
  clear hs
  induction d.connectors.flatMap anchorRequests generalizing search with
  | nil => exact h
  | cons request requests ih => exact ih _ (follow_isProper h request)

/-! ## The order of anchors -/

/-- A node that is anchored to itself leads into a circle. -/
private theorem settle_self {candidates : Anchors α} {visiting : List String} {node : String}
    {settled : Anchors α} {anchor : Anchor α} (hs : settled.has node = false)
    (ha : candidates.get? node = some anchor) (ho : anchor.owner ∈ visiting) (fuel : Nat) :
    settle candidates fuel visiting node settled = none := by
  cases fuel with
  | zero => rfl
  | succ fuel =>
    rw [settle, if_neg (by simp [hs]), ha]
    exact if_pos (List.contains_iff_mem.mpr ho)

/-- How a node is settled: it is already, its owner is no candidate, or its owner is settled first. -/
private theorem settle_cases {candidates : Anchors α} {fuel : Nat} {visiting : List String}
    {node : String} {settled out : Anchors α}
    (h : settle candidates (fuel + 1) visiting node settled = some out) :
    out = settled ∨ ∃ anchor, settled.has node = false ∧ candidates.get? node = some anchor ∧
      anchor.owner ∉ visiting ∧ (out = settled ++ [anchor] ∨
        ∃ before, settle candidates fuel (node :: visiting) anchor.owner settled = some before ∧
          out = before ++ [anchor]) := by
  rw [settle] at h
  split at h
  · cases h
    exact .inl rfl
  rename_i hsettled
  rw [Bool.not_eq_true] at hsettled
  split at h
  · cases h
  rename_i anchor hanchor
  split at h
  · cases h
  rename_i howner
  rw [List.contains_iff_mem] at howner
  refine .inr ⟨anchor, hsettled, hanchor, howner, ?_⟩
  split at h
  · split at h
    · rename_i before hbefore
      cases h
      exact .inr ⟨before, hbefore, rfl⟩
    · cases h
  · cases h
    exact .inl rfl

/-- What settling a node adds: candidates that are neither settled nor being visited. -/
theorem settle_some {candidates : Anchors α} {fuel : Nat} {visiting : List String} {node : String}
    {settled out : Anchors α} (hv : node ∉ visiting)
    (h : settle candidates fuel visiting node settled = some out) :
    ∃ more, out = settled ++ more ∧ (more.map (·.node)).Nodup ∧
      ∀ a ∈ more, a ∈ candidates ∧ a.node ∉ visiting ∧ settled.has a.node = false := by
  induction fuel generalizing visiting node out with
  | zero => cases h
  | succ fuel ih =>
    rcases settle_cases h with rfl | ⟨anchor, hsettled, hanchor, howner, rfl | ⟨before, hbefore, rfl⟩⟩
    · exact ⟨[], by simp, List.nodup_nil, by simp⟩
    · obtain ⟨hmem, rfl⟩ := Anchors.get?_some hanchor
      refine ⟨[anchor], rfl, List.nodup_singleton _, fun a ha => ?_⟩
      rw [List.mem_singleton.mp ha]
      exact ⟨hmem, hv, hsettled⟩
    · obtain ⟨hmem, rfl⟩ := Anchors.get?_some hanchor
      have hne : anchor.owner ≠ anchor.node := by
        intro he
        rw [he, settle_self hsettled hanchor (by simp [he])] at hbefore
        cases hbefore
      obtain ⟨more, rfl, hnodup, hmore⟩ := ih (by simp [hne, howner]) hbefore
      refine ⟨more ++ [anchor], by rw [List.append_assoc], ?_, ?_⟩
      · rw [List.map_append, List.map_singleton]
        refine List.nodup_append.mpr ⟨hnodup, List.nodup_singleton _, ?_⟩
        intro n hn m hm
        obtain ⟨a, ha, rfl⟩ := List.mem_map.mp hn
        rw [List.mem_singleton.mp hm]
        rintro he
        exact (hmore a ha).2.1 (by simp [he])
      · intro a ha
        rcases List.mem_append.mp ha with ha | ha
        · obtain ⟨hc, hv', hs⟩ := hmore a ha
          exact ⟨hc, fun hin => hv' (List.mem_cons_of_mem _ hin), hs⟩
        · rw [List.mem_singleton.mp ha]
          exact ⟨hmem, hv, hsettled⟩

/-- The order keeps proper anchors proper. -/
private theorem orderAnchors_spec {roots : List (FlatNode α)} {candidates : Anchors α}
    (h : ∀ a ∈ candidates, a.IsProper roots) (rest : Anchors α) {order : AnchorOrder α}
    (ho : order.anchors.IsProper roots) :
    (rest.foldl (fun order anchor =>
      match settle candidates (candidates.length + 1) [] anchor.node order.anchors with
      | some anchors => { order with anchors }
      | none => { order with circular := order.circular ++ [anchor.node] })
      order).anchors.IsProper roots := by
  induction rest generalizing order with
  | nil => exact ho
  | cons anchor rest ih =>
    rw [List.foldl_cons]
    apply ih
    split
    · rename_i anchors hsome
      obtain ⟨more, rfl, hnodup, hmore⟩ := settle_some (List.not_mem_nil) hsome
      refine ⟨?_, ?_⟩
      · intro a ha
        rcases List.mem_append.mp ha with ha | ha
        · exact ho.proper a ha
        · exact h a (hmore a ha).1
      · rw [List.map_append]
        refine List.nodup_append.mpr ⟨ho.nodup, hnodup, ?_⟩
        intro n hn m hm
        obtain ⟨a, ha, rfl⟩ := List.mem_map.mp hm
        rintro rfl
        have hnew := (hmore a ha).2.2
        rw [Anchors.has_iff.mpr hn] at hnew
        cases hnew
    · exact ho

/-- Roots are anchored once each, and only those without a position. -/
theorem resolveAnchors_isProper (d : Diagram α) (roots : List (FlatNode α)) :
    (resolveAnchors d roots).anchors.IsProper roots := by
  rw [resolveAnchors, orderAnchors]
  exact orderAnchors_spec (findAnchors_isProper d roots).proper _ ⟨by simp, List.nodup_nil⟩

end ComponentDiagram.Layout
