import ComponentDiagram.Proofs.Grammar.Clause

/-! Clauses stay on their line. -/
namespace ComponentDiagram.Grammar

variable {α : Type} [Scalar α]

private theorem trailing_line (ts : List Token) :
    ∃ a, ts = a ++ (trailing ts).2 ∧ ∀ t ∈ a, t.kind ≠ .newline := by
  cases ts with
  | nil => exact ⟨[], rfl, by simp⟩
  | cons t ts =>
    rw [trailing]
    split
    · rename_i hk
      refine ⟨t :: ts.takeWhile inLine, by simp, List.forall_mem_cons.mpr ⟨by simp [hk], ?_⟩⟩
      intro u hu hn
      have hline := List.mem_takeWhile_imp hu
      simp [inLine, hn] at hline
    · exact ⟨[], rfl, by simp⟩

private theorem isConnector_ne_newline {k : TokenKind} (h : k.isConnector = true) :
    k ≠ .newline := by
  rintro rfl
  cases h

private theorem ends_line {ts rest : List Token} {iface : Option String} {source target : String}
    {drawn : Token} (h : Ends ts iface source drawn target rest) :
    ∃ a, ts = a ++ rest ∧ ∀ t ∈ a, t.kind ≠ .newline := by
  cases h with
  | bare hs hd ht =>
    exact ⟨[_, _, _], rfl, by simp [hs, ht, isConnector_ne_newline hd]⟩
  | named hf hs hd ht =>
    exact ⟨[_, _, _, _], rfl, by simp [hf, hs, ht, isConnector_ne_newline hd]⟩

private theorem placed_line {ts rest : List Token} {place : Option (α × α)}
    (h : Placed ts place rest) : ∃ a, ts = a ++ rest ∧ ∀ t ∈ a, t.kind ≠ .newline := by
  cases h with
  | absent => exact ⟨[], rfl, by simp⟩
  | present h1 h2 h3 h4 => exact ⟨[_, _, _, _], rfl, by simp [h1, h2, h3, h4]⟩

private theorem brace_line (ts : List Token) :
    ∃ a, ts = a ++ (brace ts).2 ∧ ∀ t ∈ a, t.kind ≠ .newline := by
  cases ts with
  | nil => exact ⟨[], rfl, by simp⟩
  | cons t ts =>
    rw [brace]
    split
    · rename_i hk
      exact ⟨[t], rfl, by simp [hk]⟩
    · exact ⟨[], rfl, by simp⟩

private theorem run_line {p : Token → Bool} (hp : ∀ t, p t = true → t.kind ≠ .newline)
    (ts : List Token) : ∃ a, ts = a ++ ts.dropWhile p ∧ ∀ t ∈ a, t.kind ≠ .newline :=
  ⟨ts.takeWhile p, List.takeWhile_append_dropWhile.symm,
    fun t ht => hp t (List.mem_takeWhile_imp ht)⟩

private theorem line_trans {ts us vs : List Token}
    (h : ∃ a, ts = a ++ us ∧ ∀ t ∈ a, t.kind ≠ .newline)
    (k : ∃ a, us = a ++ vs ∧ ∀ t ∈ a, t.kind ≠ .newline) :
    ∃ a, ts = a ++ vs ∧ ∀ t ∈ a, t.kind ≠ .newline := by
  obtain ⟨a, rfl, ha⟩ := h
  obtain ⟨b, rfl, hb⟩ := k
  exact ⟨a ++ b, (List.append_assoc ..).symm, List.forall_mem_append.mpr ⟨ha, hb⟩⟩

/-- A clause is a line end, or it ends before the next one. -/
theorem Reads.line {ts rest : List Token} {c : Clause α} (h : Reads ts c rest) :
    (c = .newline ∧ ∃ t, t.kind = .newline ∧ ts = t :: rest) ∨
      (c ≠ .newline ∧ ∃ a, ts = a ++ rest ∧ ∀ t ∈ a, t.kind ≠ .newline) := by
  have hinLine (t : Token) (ht : inLine t = true) : t.kind ≠ .newline := by
    intro hn
    simp [inLine, hn] at ht
  have hinHead (t : Token) (ht : inHead t = true) : t.kind ≠ .newline := by
    intro hn
    simp [inHead, hn] at ht
  cases h with
  | newline hk => exact .inl ⟨rfl, _, hk, rfl⟩
  | closing hk => exact .inr ⟨by simp, [_], rfl, by simp [hk]⟩
  | @skipped t ts hk =>
    have hne : t.kind ≠ .newline := by
      intro hn
      simp [isStray, hn] at hk
    obtain ⟨a, ha, hn⟩ := run_line hinLine ts
    exact .inr ⟨by simp, t :: a, by rw [List.cons_append, ← ha],
      List.forall_mem_cons.mpr ⟨hne, hn⟩⟩
  | edge he _ => exact .inr ⟨by simp, line_trans (ends_line he) (trailing_line _)⟩
  | namedEdge hb he _ =>
    refine .inr ⟨by simp, line_trans ?_ (line_trans (ends_line he) (trailing_line _))⟩
    exact ⟨[_, _, _], rfl, by simp [hb.opening, hb.inner, hb.closing]⟩
  | component hb _ hp =>
    refine .inr ⟨by simp, line_trans ?_ (line_trans (run_line hinHead _)
      (line_trans (placed_line hp) (brace_line _)))⟩
    exact ⟨[_, _, _], rfl, by simp [hb.opening, hb.inner, hb.closing]⟩
  | @port p o i c word o' i' c' s ts target side hp hb hw hb' hi hs hside =>
    have hword : word.kind ≠ .newline := by
      rw [hw]
      cases target <;> simp [targetKind]
    refine .inr ⟨by simp, line_trans ?_ (trailing_line _)⟩
    exact ⟨[_, _, _, _, _, _, _, _, _], rfl, by simp [hp, hb.opening, hb.inner, hb.closing, hword,
      hb'.opening, hb'.inner, hb'.closing, hs]⟩

end ComponentDiagram.Grammar
