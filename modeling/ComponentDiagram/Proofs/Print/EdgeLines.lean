import ComponentDiagram.Proofs.Grammar.Line
import ComponentDiagram.Proofs.Print.Identifiers

/-! Lines that start with an edge. Each of them is read as a connector at least, so a source that is
read as its document has no other ones than the lines of its connectors. -/
namespace ComponentDiagram
open Source Grammar Print

/-- An edge starts behind a name in brackets. -/
def opensNamed : List Token → Bool
  | o :: i :: c :: ts =>
    o.kind == .leftBracket && i.kind == .identifier && c.kind == .rightBracket && startsEdge ts
  | _ => false

/-- An edge starts here, with or without a name. -/
def opensEdge (ts : List Token) : Bool := startsEdge ts || opensNamed ts

/-- The line ends that an edge follows. -/
def laterEdges : List Token → Nat
  | [] => 0
  | t :: ts => (if t.kind = .newline ∧ opensEdge ts = true then 1 else 0) + laterEdges ts

/-- The lines that start with an edge, the first one included. -/
def edgeLines (ts : List Token) : Nat := (if opensEdge ts = true then 1 else 0) + laterEdges ts

theorem laterEdges_append (ts us : List Token) : laterEdges us ≤ laterEdges (ts ++ us) := by
  induction ts with
  | nil => exact Nat.le_refl _
  | cons t ts ih =>
    rw [List.cons_append, laterEdges]
    omega

theorem laterEdges_line {ts : List Token} (h : ∀ t ∈ ts, t.kind ≠ .newline) (us : List Token) :
    laterEdges (ts ++ us) = laterEdges us := by
  induction ts with
  | nil => rfl
  | cons t ts ih =>
    obtain ⟨ht, hts⟩ := List.forall_mem_cons.mp h
    rw [List.cons_append, laterEdges, if_neg (fun h => ht h.1), Nat.zero_add, ih hts]

/-- A line counts for itself, and the lines after it. -/
theorem edgeLines_line (ts us : List Token) :
    (if opensEdge (ts ++ lineEnd :: us) = true then 1 else 0) + edgeLines us ≤
      edgeLines (ts ++ lineEnd :: us) := by
  have hlater := laterEdges_append ts (lineEnd :: us)
  have hend : laterEdges (lineEnd :: us) = edgeLines us := by
    rw [laterEdges, edgeLines]
    simp [lineEnd, token]
  rw [hend] at hlater
  rw [edgeLines.eq_def (ts ++ lineEnd :: us)]
  omega

theorem opensEdge_head {ts : List Token} (h : opensEdge ts = true) :
    headKind ts = .identifier ∨ headKind ts = .leftBracket := by
  rw [opensEdge, Bool.or_eq_true] at h
  rcases h with h | h
  · left
    rcases ts with _ | ⟨a, _ | ⟨b, ts⟩⟩
    · cases h
    · cases h
    · simp only [startsEdge, Bool.and_eq_true, beq_iff_eq] at h
      exact h.1
  · right
    rcases ts with _ | ⟨o, _ | ⟨i, _ | ⟨c, ts⟩⟩⟩
    · cases h
    · cases h
    · cases h
    · simp only [opensNamed, Bool.and_eq_true, beq_iff_eq] at h
      exact h.1.1.1

variable {α : Type} [Scalar α]

namespace Grammar

def Clause.isEdge : Clause α → Bool
  | .edge _ _ _ _ _ _ => true
  | _ => false

/-- Where an edge starts, an edge is read. -/
theorem Reads.isEdge {ts rest : List Token} {c : Clause α} (h : Reads ts c rest)
    (he : opensEdge ts = true) : c.isEdge = true := by
  have hhead := opensEdge_head he
  cases h with
  | edge => rfl
  | namedEdge => rfl
  | newline hk =>
    simp only [headKind, hk] at hhead
    rcases hhead with h | h <;> cases h
  | closing hk =>
    simp only [headKind, hk] at hhead
    rcases hhead with h | h <;> cases h
  | skipped hk =>
    simp only [headKind] at hhead
    rcases hhead with h | h <;> rw [h] at hk <;> cases hk
  | component hb hedge =>
    have hstart {o i c : Token} {ts : List Token} (ho : o.kind = .leftBracket) :
        startsEdge (o :: i :: c :: ts) = false := by
      simp [startsEdge, ho]
    rw [opensEdge, hstart hb.opening, opensNamed, hedge] at he
    simp at he
  | port hp =>
    simp only [headKind, hp] at hhead
    rcases hhead with h | h <;> cases h

theorem Reads.edgeLines {ts rest : List Token} {c : Clause α} (h : Reads ts c rest) :
    ComponentDiagram.edgeLines ts ≤
      (if c.isEdge = true then 1 else 0) + ComponentDiagram.edgeLines rest := by
  rcases h.line with ⟨rfl, t, ht, rfl⟩ | ⟨-, a, rfl, ha⟩
  · have hhead : opensEdge (t :: rest) ≠ true := by
      intro ho
      rcases opensEdge_head ho with h | h <;> simp only [headKind, ht] at h <;> cases h
    rw [ComponentDiagram.edgeLines, if_neg hhead, laterEdges, ComponentDiagram.edgeLines]
    simp [ht]
  · have hedge := fun he => h.isEdge he
    rw [ComponentDiagram.edgeLines, ComponentDiagram.edgeLines, laterEdges_line ha]
    split
    · rename_i he
      rw [if_pos (hedge he)]
      omega
    · omega

/-- Lines that start with an edge are read as edges. -/
theorem ReadsAll.edgeLines {ts rest : List Token} {cs : List (Clause α)}
    (h : ReadsAll ts cs rest) :
    ComponentDiagram.edgeLines ts ≤ cs.countP Clause.isEdge + ComponentDiagram.edgeLines rest := by
  induction h with
  | nil => simp
  | cons hr _ ih =>
    have hfirst := hr.edgeLines
    rw [List.countP_cons]
    omega

omit [Scalar α] in
theorem actAll_edgeCount {limit : Option Nat} {cs : List (Clause α)} {s s' : State α}
    (hs : s.IsClean) (h : actAll limit cs s = some s') (hd : s'.diagnostics = []) :
    s'.connectors.length = s.connectors.length + cs.countP Clause.isEdge := by
  induction cs generalizing s with
  | nil => cases h; rfl
  | cons c cs ih =>
    obtain ⟨s₁, h₁, h₂⟩ := Option.bind_eq_some_iff.mp h
    have hd₁ : s₁.diagnostics = [] := List.prefix_nil.mp (hd ▸ actAll_diagnostics h₂)
    obtain ⟨hs₁, hadds⟩ := act_clean hs h₁ hd₁
    have hrest := ih hs₁ h₂
    have hfirst : s₁.connectors.length =
        s.connectors.length + if c.isEdge = true then 1 else 0 := by
      cases hadds with
      | newline => rfl
      | closing _ hk => rw [hk]; rfl
      | edge _ hk => rw [hk]; simp [State.connect, Clause.isEdge]
      | component _ hk => rw [hk]; rfl
      | port _ hk => rw [hk]; rfl
    rw [hrest, hfirst, List.countP_cons]
    omega

end Grammar

namespace Print

omit [Scalar α] in
/-- The label of a component starts an edge. -/
def readsAsEdge (c : Component α) : Bool := startsEdge (cut c.label.toList)

private theorem startsEdge_append_of {ts : List Token} (h : startsEdge ts = true)
    (us : List Token) : startsEdge (ts ++ us) = true := by
  match ts with
  | [] => cases h
  | [_] => cases h
  | [a, b] =>
    have hend : TokenKind.endOfInput.isConnector = false := rfl
    simp only [startsEdge, headKind, hend, Bool.and_false, Bool.or_false, Bool.and_eq_true] at h
    simp [startsEdge, h.1, h.2]
  | a :: b :: c :: ts => exact h

private theorem edgeLines_skip (ts us : List Token) :
    edgeLines us ≤ edgeLines (ts ++ lineEnd :: us) := by
  have := edgeLines_line ts us
  omega

private theorem edgeLines_head (c : Component α) (ts us : List Token) :
    (if readsAsEdge c = true then 1 else 0) + edgeLines us ≤
      edgeLines (headTokens c ++ (ts ++ lineEnd :: us)) := by
  have hline := edgeLines_line (headTokens c ++ ts) us
  rw [List.append_assoc] at hline
  have hopens : readsAsEdge c = true → opensEdge (headTokens c ++ (ts ++ lineEnd :: us)) = true := by
    intro hc
    have hstart := startsEdge_append_of hc
      (placeTokens (writtenPlace c) ++ (ts ++ lineEnd :: us))
    rw [headTokens, opensEdge, List.append_assoc, List.append_assoc]
    simp [bracketTokens, token, opensNamed, hstart]
  split
  · rename_i hc
    rw [if_pos (hopens hc)] at hline
    exact hline
  · omega

omit [Scalar α] in
private theorem edgeLines_ports (c : Component α) (us : List Token) :
    edgeLines us ≤ edgeLines (portsTokens c ++ us) := by
  rw [portsTokens]
  induction c.ports with
  | nil => exact Nat.le_refl _
  | cons p ps ih =>
    refine ih.trans ?_
    rw [List.flatMap_cons, List.append_assoc, List.append_assoc]
    exact edgeLines_skip ..

mutual

private theorem edgeLines_tree : (t : ComponentTree α) → (us : List Token) →
    (Tree.values [t]).countP readsAsEdge + edgeLines us ≤ edgeLines (treeTokens t ++ us)
  | .node c children, us => by
    rw [treeTokens, Tree.values_node, List.countP_cons]
    by_cases hempty : (children.isEmpty && c.ports.isEmpty) = true
    · rw [if_pos hempty]
      have hnil := List.isEmpty_iff.mp (Bool.and_eq_true_iff.mp hempty).1
      have hhead := edgeLines_head c [] us
      rw [hnil, List.append_assoc]
      simp only [Tree.values, Tree.forestSubtrees, List.map_nil, List.countP_nil]
      exact (by omega : _ ≤ _).trans hhead
    · rw [if_neg hempty]
      have hinside := edgeLines_forest children ([token .rightBrace "\x7d", lineEnd] ++ us)
      have hports := edgeLines_ports c (forestTokens children ++
        ([token .rightBrace "\x7d", lineEnd] ++ us))
      have hhead := edgeLines_head c [token .leftBrace "\x7b"] (portsTokens c ++
        (forestTokens children ++ ([token .rightBrace "\x7d", lineEnd] ++ us)))
      have hclose := edgeLines_skip [token .rightBrace "\x7d"] us
      simp only [List.append_assoc, List.cons_append, List.nil_append] at *
      omega

theorem edgeLines_forest : (ts : List (ComponentTree α)) → (us : List Token) →
    (Tree.values ts).countP readsAsEdge + edgeLines us ≤ edgeLines (forestTokens ts ++ us)
  | [], us => by simp [Tree.values, Tree.forestSubtrees, forestTokens]
  | t :: ts, us => by
    have hfirst := edgeLines_tree t (forestTokens ts ++ us)
    have hothers := edgeLines_forest ts us
    rw [Tree.values_cons, List.countP_append, forestTokens, List.append_assoc]
    omega

end

private theorem opensEdge_connector {c : Connector} (h : c.IsLegible) (us : List Token) :
    opensEdge (connectorTokens c ++ us) = true := by
  have hsource := cut_of_spells (h.source.spells (by decide) (by decide))
  have htarget := cut_of_spells (h.target.spells (by decide) (by decide))
  have hdrawn := isConnector_drawnKind c.kind
  rw [connectorTokens, hsource, htarget, opensEdge]
  cases c.name <;> cases c.interfaceName <;>
    simp [startsEdge, opensNamed, bracketTokens, token, headKind, hdrawn]

private theorem edgeLines_connectors {cs : List Connector} (h : ∀ c ∈ cs, c.IsLegible)
    (us : List Token) : cs.length + edgeLines us ≤
      edgeLines (cs.flatMap (fun c => connectorTokens c ++ [lineEnd]) ++ us) := by
  induction cs with
  | nil => simp
  | cons c cs ih =>
    obtain ⟨hc, hcs⟩ := List.forall_mem_cons.mp h
    have hrest := ih hcs
    have hline := edgeLines_line (connectorTokens c)
      (cs.flatMap (fun c => connectorTokens c ++ [lineEnd]) ++ us)
    rw [if_pos (opensEdge_connector hc _)] at hline
    rw [List.flatMap_cons, List.append_assoc, List.append_assoc, List.length_cons]
    simp only [List.cons_append, List.nil_append] at *
    omega

/-- The source of a document has a line for each connector and for each label that starts an
edge. -/
theorem edgeLines_insideTokens {doc : Document α} (h : ∀ c ∈ doc.connectors, c.IsLegible) :
    doc.components.countP readsAsEdge + doc.connectors.length ≤ edgeLines (insideTokens doc) := by
  have hedges := edgeLines_connectors h [token .rightBrace "\x7d", lineEnd]
  have hgap : edgeLines (doc.connectors.flatMap (fun c => connectorTokens c ++ [lineEnd]) ++
      [token .rightBrace "\x7d", lineEnd]) ≤
      edgeLines ((if doc.roots.isEmpty || doc.connectors.isEmpty then [] else [lineEnd]) ++
        (doc.connectors.flatMap (fun c => connectorTokens c ++ [lineEnd]) ++
          [token .rightBrace "\x7d", lineEnd])) := by
    split
    · exact Nat.le_refl _
    · exact edgeLines_skip [] _
  have hforest := edgeLines_forest doc.roots
    ((if doc.roots.isEmpty || doc.connectors.isEmpty then [] else [lineEnd]) ++
      (doc.connectors.flatMap (fun c => connectorTokens c ++ [lineEnd]) ++
        [token .rightBrace "\x7d", lineEnd]))
  have hstart := edgeLines_skip [] (forestTokens doc.roots ++
    ((if doc.roots.isEmpty || doc.connectors.isEmpty then [] else [lineEnd]) ++
      (doc.connectors.flatMap (fun c => connectorTokens c ++ [lineEnd]) ++
        [token .rightBrace "\x7d", lineEnd])))
  rw [List.nil_append] at hstart
  rw [insideTokens, Document.components]
  omega

end Print

private theorem edgeLines_closed {r : Token} {after : List Token} (hr : r.kind = .rightBrace)
    (ha : afterLines after = []) : edgeLines (r :: after) = 0 := by
  have hopens {ts : List Token} (h : headKind ts ≠ .identifier) (h' : headKind ts ≠ .leftBracket) :
      opensEdge ts = false := by
    rw [Bool.eq_false_iff]
    exact fun he => (opensEdge_head he).elim h h'
  have hlines : ∀ t ∈ after, t.kind = .newline := by
    intro t ht
    have hall := List.dropWhile_eq_nil_iff.mp ha t ht
    exact beq_iff_eq.mp hall
  have hlater : laterEdges after = 0 := by
    clear ha
    induction after with
    | nil => rfl
    | cons t after ih =>
      obtain ⟨-, hrest⟩ := List.forall_mem_cons.mp hlines
      have hhead : headKind after = .newline ∨ headKind after = .endOfInput := by
        cases after with
        | nil => exact .inr rfl
        | cons u after => exact .inl (hrest u (List.mem_cons_self ..))
      rw [laterEdges, ih hrest, hopens (by rcases hhead with h | h <;> simp [h])
        (by rcases hhead with h | h <;> simp [h])]
      simp
  rw [edgeLines, hopens (by simp [headKind, hr]) (by simp [headKind, hr]), laterEdges, hlater]
  simp [hr]

/-- A document whose source is read as the document is legible. -/
theorem isLegible_of_accepts {doc : Document α} (h : doc.IsRead) (hα : ReadsBack α)
    {limit : Option Nat} {type : DiagramType} {s : State α}
    (ha : Accepts limit (documentTokens doc) type s) (hd : s.diagnostics = [])
    (hc : s.components = doc.components) (hk : s.connectors = doc.connectors) :
    doc.IsLegible := by
  obtain ⟨text, -, hcut⟩ := h.printed hα
  have hlegible := connectors_isLegible h (fun t ht => isToken_of_mem_cut (hcut ▸ ht)) ha hd hc hk
  refine ⟨?_, hlegible⟩
  obtain ⟨-, cs, r, after, hr, hrk, hafter, hact, -⟩ := accepts_documentTokens ha
  have hread := hr.edgeLines
  have hcount := actAll_edgeCount isClean_empty hact hd
  have hlines := edgeLines_insideTokens hlegible
  rw [edgeLines_closed hrk hafter] at hread
  rw [hk, List.length_nil] at hcount
  have hzero : doc.components.countP readsAsEdge = 0 := by omega
  have hnone : ∀ c ∈ doc.components, readsAsEdge c = false := by
    simpa [List.countP_eq_zero] using hzero
  exact Tree.ForestAllBelow.and_values (h.isWellFormed hα) hnone fun c hw he => ⟨hw, he⟩

end ComponentDiagram
