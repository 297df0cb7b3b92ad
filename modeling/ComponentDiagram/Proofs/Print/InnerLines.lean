import ComponentDiagram.Proofs.Print.Reprint

/-! The lines of a document's source between the first one and the last. They can be told apart in
the text, so two documents with one source have the same lines. -/
namespace ComponentDiagram.Print
open Source Grammar

/-- A line of a text. -/
def IsLine (line : String) : Prop := '\n' ∉ line.toList

instance : DecidablePred IsLine := fun line => inferInstanceAs (Decidable ('\n' ∉ line.toList))

theorem isLine_of_cut {line : String} (h : ∀ t ∈ cut line.toList, t.kind ≠ .newline) :
    IsLine line := by
  intro hmem
  obtain ⟨t, ht, hk⟩ := newline_mem_cut hmem
  exact h t ht hk

/-- Lines are told apart by their ends. -/
theorem eq_of_text {ls ms : List String} (hl : ∀ l ∈ ls, IsLine l) (hm : ∀ m ∈ ms, IsLine m)
    (hn : ls ≠ []) (hn' : ms ≠ [])
    (h : "\n".intercalate ls ++ "\n" = "\n".intercalate ms ++ "\n") : ls = ms := by
  have hline : ("\n" : String).toList = ['\n'] := rfl
  have hsplit {ks : List String} (hk : ∀ k ∈ ks, IsLine k) (hne : ks ≠ []) :
      (("\n".intercalate ks).toList).splitOn '\n' = ks.map String.toList := by
    rw [String.toList_intercalate, hline]
    refine List.splitOn_intercalate '\n' ?_ (by simpa using hne)
    simpa [IsLine] using hk
  have htext := congrArg String.toList h
  rw [String.toList_append, String.toList_append] at htext
  have hlists := (hsplit hl hn).symm.trans
    ((congrArg _ (List.append_cancel_right htext)).trans (hsplit hm hn'))
  exact List.map_inj_right (fun _ _ => String.toList_inj.mp) |>.mp hlists

/-- A line inside a block. -/
structure IsInner (line : String) : Prop where
  indented : line.toList.head? = some ' '
  line : IsLine line

theorem isInner_indent {depth : Nat} (hd : 0 < depth) {line : String} (h : IsLine line) :
    IsInner (indent depth ++ line) := by
  obtain ⟨n, hn⟩ := Nat.exists_eq_add_of_lt (Nat.mul_lt_mul_of_pos_left hd (by decide : 0 < 4))
  have hindent : (indent depth).toList = ' ' :: List.replicate n ' ' := by
    rw [indent, String.toList_ofList, hn, Nat.mul_zero, Nat.zero_add, List.replicate_succ]
  constructor
  · rw [String.toList_append, hindent]
    rfl
  · rw [IsLine, String.toList_append, hindent]
    simp only [List.cons_append, List.mem_cons, List.mem_append, List.mem_replicate, not_or]
    exact ⟨by decide, fun he => absurd he.2 (by decide), h⟩

theorem IsInner.ne_empty {line : String} (h : IsInner line) : line ≠ "" := by
  rintro rfl
  cases h.indented

theorem isLine_identifier {name : String} (h : IsIdentifier name) : IsLine name := by
  intro hmem
  have hk := (h.spells (by decide) (by decide)).newline_of_mem hmem
  cases hk

private theorem brackets_kind (name : String) : ∀ t ∈ bracketTokens name, t.kind ≠ .newline := by
  simp [bracketTokens, token]

private theorem label_kind {label : Option String} (h : ∀ l ∈ label, IsLabel l) :
    ∀ t ∈ labelTokens label, t.kind ≠ .newline := by
  cases label with
  | none => simp [labelTokens]
  | some l =>
    refine List.forall_mem_cons.mpr ⟨by simp [token], ?_⟩
    exact kind_ne_newline (h l rfl).line

theorem isLine_connectorText {c : Connector} (h : c.IsWellFormed)
    (hs : IsLine (endpointText c.source)) (ht : IsLine (endpointText c.target)) :
    IsLine (connectorText c) := by
  have hdrawn : drawnKind c.kind ≠ .newline := by cases c.kind <;> simp [drawnKind]
  refine isLine_of_cut ?_
  rw [cut_connectorText h, connectorTokens]
  simp only [List.mem_append, List.mem_cons, List.mem_flatMap, List.mem_map]
  rintro t (⟨n, -, hk⟩ | ⟨n, -, rfl⟩ | hk | rfl | hk | hk)
  · exact brackets_kind n t hk
  · simp [token]
  · exact kind_ne_newline hs t hk
  · exact hdrawn
  · exact kind_ne_newline ht t hk
  · exact label_kind h.label t hk

theorem isLine_connector {place : Nat} {c : Connector} (h : c.IsRead place) :
    IsLine (connectorText c) := by
  have hends {e : Endpoint} (he : e.IsRead) : IsLine (endpointText e) := by
    intro hmem
    obtain ⟨text, htext, hc⟩ := he.mem_text hmem
    exact isLine_identifier htext hc
  exact isLine_connectorText h.toIsWellFormed (hends h.source) (hends h.target)

variable {α : Type} [Scalar α]

omit [Scalar α] in
private theorem isLine_port {owner : String} (ho : IsIdentifier owner) {p : Port α}
    (h : p.IsCanonical) : IsLine (portText owner p) := by
  refine isLine_of_cut ?_
  rw [cut_portText ho h, portTokens]
  simp only [List.cons_append, List.mem_cons, List.mem_append]
  rintro t (rfl | (ht | rfl | ht) | rfl | ht)
  · simp [token]
  · exact brackets_kind _ t ht
  · rw [placeWord]
    split <;> simp [token]
  · exact brackets_kind _ t ht
  · simp [token]
  · exact label_kind h.label t ht

private theorem isLine_head {c : Component α} (h : c.IsWellFormed IsWritable) {head : String}
    (hh : headText c = .ok head) : IsLine head ∧ IsLine (head ++ " \x7b") := by
  obtain ⟨_, hhead, hcut⟩ := cut_headText h
  rw [hh] at hhead
  cases hhead
  have hplace : ∀ t ∈ placeTokens (writtenPlace c), t.kind ≠ .newline := by
    cases writtenPlace c <;> simp [placeTokens, token]
  have hkind : ∀ t ∈ headTokens c, t.kind ≠ .newline := by
    rw [headTokens]
    simp only [List.mem_append]
    rintro t (ht | ht | ht)
    · exact brackets_kind _ t ht
    · exact kind_ne_newline h.label.line t ht
    · exact hplace t ht
  refine ⟨isLine_of_cut ?_, isLine_of_cut ?_⟩
  · have hline := hcut [] (by simp)
    rw [List.append_nil, cut_nil, List.append_nil] at hline
    rwa [hline]
  · have hopen : (" \x7b" : String).toList = [' ', '\x7b'] := rfl
    rw [String.toList_append, hopen, hcut _ (by simp), cut_space,
      cut_delimiter (k := .leftBrace) rfl]
    simp only [List.mem_append, List.mem_singleton, cut_nil]
    rintro t (ht | rfl)
    · exact hkind t ht
    · simp [lexemeToken]

/-- What holds of all that a component is written with, and then of the lines that are moved in. -/
structure HoldsOfLines (whole : α → Prop) (P Q : String → Prop) : Prop where
  head : ∀ {c : Component α}, c.IsWellFormed whole → ∀ {head : String}, headText c = .ok head →
    P head ∧ P (head ++ " \x7b")
  port : ∀ {owner : String}, IsIdentifier owner → ∀ {p : Port α}, p.IsCanonical →
    P (portText owner p)
  close : P "\x7d"
  indented : ∀ {depth : Nat}, 0 < depth → ∀ {line : String}, P line → Q (indent depth ++ line)

mutual

theorem HoldsOfLines.tree {whole : α → Prop} {P Q : String → Prop} (hp : HoldsOfLines whole P Q)
    {limit level depth : Nat} (hd : 0 < depth) : {t : ComponentTree α} →
    t.AllBelow limit (Component.IsWellFormed whole) level → {lines : List String} →
    treeLines depth t = .ok lines → ∀ l ∈ lines, Q l
  | .node c children, h, lines, hl => by
    rw [Tree.AllBelow] at h
    obtain ⟨⟨hc, -⟩, hchildren⟩ := h
    rw [treeLines] at hl
    cases hhead : headText c with
    | error e =>
      rw [hhead] at hl
      cases hl
    | ok head =>
      obtain ⟨hline, hopen⟩ := hp.head hc hhead
      rw [hhead] at hl
      cases hempty : children.isEmpty && c.ports.isEmpty with
      | true =>
        simp only [hempty] at hl
        cases hl
        simpa using hp.indented hd hline
      | false =>
        simp only [hempty] at hl
        cases hinside : forestLines (depth + 1) children with
        | error e =>
          rw [show forestLines (depth + 1) children = _ from hinside] at hl
          cases hl
        | ok inside =>
          rw [show forestLines (depth + 1) children = _ from hinside] at hl
          cases hl
          have hfirst : s!"{indent depth}{head} \x7b" = indent depth ++ (head ++ " \x7b") := by
            rw [← String.toList_inj]
            simp [toString]
          intro l hmem
          simp only [hfirst, List.mem_append, List.mem_singleton, List.mem_map] at hmem
          rcases hmem with ((rfl | ⟨p, hmem, rfl⟩) | hmem) | rfl
          · exact hp.indented hd hopen
          · exact hp.indented (Nat.succ_pos depth) (hp.port hc.id (hc.ports p hmem))
          · exact hp.forest (Nat.succ_pos depth) hchildren hinside l hmem
          · exact hp.indented hd hp.close

/-- The lines of components inside a block. -/
theorem HoldsOfLines.forest {whole : α → Prop} {P Q : String → Prop} (hp : HoldsOfLines whole P Q)
    {limit level depth : Nat} (hd : 0 < depth) : {ts : List (ComponentTree α)} →
    Tree.ForestAllBelow limit (Component.IsWellFormed whole) level ts →
    {lines : List String} → forestLines depth ts = .ok lines → ∀ l ∈ lines, Q l
  | [], _, lines, hl => by
    cases hl
    simp
  | t :: ts, h, lines, hl => by
    rw [Tree.ForestAllBelow] at h
    rw [forestLines] at hl
    cases hfirst : treeLines depth t with
    | error e =>
      rw [hfirst] at hl
      cases hl
    | ok first =>
      rw [hfirst] at hl
      cases hothers : forestLines depth ts with
      | error e =>
        rw [show forestLines depth ts = _ from hothers] at hl
        cases hl
      | ok others =>
        rw [show forestLines depth ts = _ from hothers] at hl
        cases hl
        intro l hmem
        rcases List.mem_append.mp hmem with hmem | hmem
        · exact hp.tree hd h.1 hfirst l hmem
        · exact hp.forest hd h.2 hothers l hmem

end

theorem inner_forest {limit level depth : Nat} (hd : 0 < depth) {ts : List (ComponentTree α)}
    (h : Tree.ForestAllBelow limit (Component.IsWellFormed IsWritable) level ts)
    {lines : List String} (hl : forestLines depth ts = .ok lines) : ∀ l ∈ lines, IsInner l := by
  have hlines : HoldsOfLines (IsWritable : α → Prop) IsLine IsInner :=
    ⟨isLine_head, isLine_port, by decide, isInner_indent⟩
  exact hlines.forest hd h hl

end ComponentDiagram.Print
