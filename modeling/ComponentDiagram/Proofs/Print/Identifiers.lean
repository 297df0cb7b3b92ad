import ComponentDiagram.Proofs.Print.Reprint

/-! How many identifiers it takes to read a document, and how many its source has. The source lacks
one for each end of a connector that is not written as an identifier. -/
namespace ComponentDiagram
open Source Grammar Print

/-- The identifiers among tokens. -/
def identifiers (ts : List Token) : Nat := ts.countP (·.kind == .identifier)

@[simp] theorem identifiers_nil : identifiers [] = 0 := rfl

theorem identifiers_append (ts us : List Token) :
    identifiers (ts ++ us) = identifiers ts + identifiers us := List.countP_append

theorem identifiers_cons (t : Token) (ts : List Token) :
    identifiers (t :: ts) = (if t.kind = .identifier then 1 else 0) + identifiers ts := by
  rw [identifiers, identifiers, List.countP_cons, Nat.add_comm]
  simp

theorem identifiers_sublist {ts us : List Token} (h : ts.Sublist us) :
    identifiers ts ≤ identifiers us := h.countP_le

variable {α : Type}

namespace Grammar

/-- The identifiers that a clause takes at least. -/
def Clause.identifiers : Clause α → Nat
  | .edge name iface _ _ _ label =>
    name.toList.length + iface.toList.length + 2 + ComponentDiagram.identifiers (labelTokens label)
  | .component _ _ label _ _ => 1 + ComponentDiagram.identifiers (cut label.toList)
  | .port _ _ _ _ label => 2 + ComponentDiagram.identifiers (labelTokens label)
  | _ => 0

private theorem identifiers_joined {ts : List Token} (h : ∀ t ∈ ts, IsToken t) :
    identifiers (cut (Reader.joined ts).toList) ≤ identifiers ts := by
  rw [cut_joined h]
  exact identifiers_sublist (strip_sublist isBlankToken ts)

private theorem identifiers_split (p : Token → Bool) (ts : List Token) :
    identifiers (ts.takeWhile p) + identifiers (ts.dropWhile p) = identifiers ts := by
  rw [← identifiers_append, List.takeWhile_append_dropWhile]

private theorem identifiers_trailing {ts : List Token} (h : ∀ t ∈ ts, IsToken t) :
    identifiers (labelTokens (trailing ts).1) + identifiers (trailing ts).2 ≤ identifiers ts := by
  cases ts with
  | nil => exact Nat.le_refl _
  | cons t ts =>
    rw [trailing]
    split
    · rename_i hk
      have hline : ∀ u ∈ ts.takeWhile inLine, IsToken u := fun u hu =>
        h u (List.mem_cons_of_mem t (List.takeWhile_sublist _ |>.subset hu))
      have hjoined := identifiers_joined hline
      have hsplit := identifiers_split inLine ts
      simp only [labelTokens, identifiers_cons, token, hk]
      simp
      omega
    · simp [labelTokens]

private theorem identifiers_brace (ts : List Token) :
    identifiers (brace ts).2 ≤ identifiers ts :=
  identifiers_sublist (brace_suffix ts).sublist

section

variable [Scalar α]

private theorem identifiers_placed {ts rest : List Token} {place : Option (α × α)}
    (h : Placed ts place rest) : identifiers rest ≤ identifiers ts :=
  identifiers_sublist h.suffix.sublist

private theorem identifiers_ends {ts rest : List Token} {iface : Option String}
    {source target : String} {drawn : Token} (h : Ends ts iface source drawn target rest) :
    iface.toList.length + 2 + identifiers rest ≤ identifiers ts := by
  cases h with
  | bare hs hd ht =>
    simp only [identifiers_cons, hs, ht]
    simp
    omega
  | named hf hs hd ht =>
    simp only [identifiers_cons, hf, hs, ht]
    simp
    omega

/-- A clause takes the identifiers that it holds. -/
theorem Reads.identifiers {ts rest : List Token} {c : Clause α} (h : Reads ts c rest)
    (hts : ∀ t ∈ ts, IsToken t) :
    c.identifiers + ComponentDiagram.identifiers rest ≤ ComponentDiagram.identifiers ts := by
  cases h with
  | newline => simp [Clause.identifiers, identifiers_cons]
  | closing => simp [Clause.identifiers, identifiers_cons]
  | @skipped t ts =>
    have hsub := identifiers_sublist (List.dropWhile_suffix inLine (l := ts)).sublist
    simp only [Clause.identifiers, identifiers_cons]
    omega
  | edge he hk =>
    have hends := identifiers_ends he
    have htrailing := identifiers_trailing (he.isProper hts).2.2.2.2
    simp only [Clause.identifiers, Option.toList_none, List.length_nil]
    omega
  | namedEdge hb he hk =>
    simp only [List.forall_mem_cons] at hts
    have hends := identifiers_ends he
    have htrailing := identifiers_trailing (he.isProper hts.2.2.2).2.2.2.2
    simp only [Clause.identifiers, Option.toList_some, List.length_singleton, identifiers_cons,
      hb.inner, if_true]
    omega
  | @component _ _ _ ts _ rest hb _ hp =>
    simp only [List.forall_mem_cons] at hts
    have hhead : ∀ t ∈ ts.takeWhile inHead, IsToken t := fun t ht =>
      hts.2.2.2 t (List.takeWhile_sublist _ |>.subset ht)
    have hlabel := identifiers_joined hhead
    have hsplit := identifiers_split inHead ts
    have hplace := identifiers_placed hp
    have hbrace := identifiers_brace rest
    simp only [Clause.identifiers, identifiers_cons, hb.inner, if_true]
    omega
  | port hp hb hw hb' hn hs =>
    simp only [List.forall_mem_cons] at hts
    have htrailing := identifiers_trailing hts.2.2.2.2.2.2.2.2.2
    simp only [Clause.identifiers, identifiers_cons, hb.inner, hb'.inner, if_true]
    omega

end

/-! ## What has been gathered -/

/-- The identifiers that it takes to read a component with its ports. -/
def componentNeeds (c : Component α) : Nat :=
  1 + ComponentDiagram.identifiers (cut c.label.toList) +
    (c.ports.map fun p => 2 + ComponentDiagram.identifiers (labelTokens p.label)).sum

def connectorNeeds (c : Connector) : Nat :=
  c.name.toList.length + c.interfaceName.toList.length + 2 +
    ComponentDiagram.identifiers (labelTokens c.label)

def State.needs (s : State α) : Nat :=
  (s.components.map componentNeeds).sum + (s.connectors.map connectorNeeds).sum

theorem Adds.needs {c : Clause α} {s s' : State α} (h : Adds c s s') :
    s'.needs ≤ s.needs + c.identifiers := by
  cases h with
  | newline => exact Nat.le_refl _
  | closing hc hk => rw [State.needs, hc, hk]; exact Nat.le_refl _
  | edge hc hk =>
    rw [State.needs, hc, hk]
    simp only [State.connect, List.map_append, List.sum_append, List.map_singleton,
      List.sum_singleton, connectorNeeds, Clause.identifiers, State.needs]
    omega
  | component hc hk =>
    rw [State.needs, hc, hk]
    simp only [List.map_append, List.sum_append, List.map_singleton, List.sum_singleton,
      componentNeeds, written, List.map_nil, List.sum_nil, Clause.identifiers, State.needs]
    omega
  | port hc hk =>
    obtain ⟨l, owner, r, hl, -, hr⟩ := hc
    rw [State.needs, State.needs, hk, hl, hr]
    simp only [List.map_append, List.sum_append, List.map_cons, List.sum_cons, componentNeeds,
      withPort, List.map_nil, List.sum_nil, Clause.identifiers]
    omega

/-- Tokens have the identifiers that it takes to read what they say. -/
theorem ReadsAll.needs [Scalar α] {limit : Option Nat} {ts rest : List Token}
    {cs : List (Clause α)} (h : ReadsAll ts cs rest) (hts : ∀ t ∈ ts, IsToken t) {s s' : State α}
    (ha : actAll limit cs s = some s') (hs : s.IsClean) (hd : s'.diagnostics = []) :
    s'.needs + ComponentDiagram.identifiers rest ≤
      s.needs + ComponentDiagram.identifiers ts := by
  induction h generalizing s with
  | nil => cases ha; exact Nat.le_refl _
  | cons hr _ ih =>
    obtain ⟨s₁, h₁, h₂⟩ := Option.bind_eq_some_iff.mp ha
    have hd₁ : s₁.diagnostics = [] := List.prefix_nil.mp (hd ▸ actAll_diagnostics h₂)
    obtain ⟨hs₁, hadds⟩ := act_clean hs h₁ hd₁
    obtain ⟨t, tail, rfl, hsuffix⟩ := hr.suffix
    have hrest := ih (fun u hu => hts u (List.mem_cons_of_mem t (hsuffix.subset hu))) h₂ hs₁
    have hfirst := hr.identifiers hts
    have hneeds := hadds.needs
    omega

end Grammar

/-! ## What is printed -/

namespace Print

variable [Scalar α]

private theorem identifiers_brackets (name : String) : identifiers (bracketTokens name) = 1 := rfl

private theorem identifiers_place (place : Option (Int × Int)) :
    identifiers (placeTokens place) = 0 := by
  cases place <;> rfl

omit [Scalar α] in
private theorem identifiers_portTokens (owner : String) (p : Port α) :
    identifiers (portTokens owner p) = 2 + identifiers (labelTokens p.label) := by
  rw [portTokens, placeWord]
  cases p.connectorRef <;>
    simp [identifiers_append, identifiers_cons, identifiers_brackets, token] <;> omega

private theorem identifiers_headTokens (c : Component α) :
    identifiers (headTokens c) = 1 + identifiers (cut c.label.toList) := by
  rw [headTokens, identifiers_append, identifiers_append, identifiers_brackets, identifiers_place,
    Nat.add_zero]

omit [Scalar α] in
private theorem identifiers_portsTokens (c : Component α) : identifiers (portsTokens c) =
    (c.ports.map fun p => 2 + identifiers (labelTokens p.label)).sum := by
  rw [portsTokens]
  induction c.ports with
  | nil => rfl
  | cons p ps ih =>
    rw [List.flatMap_cons, identifiers_append, identifiers_append, identifiers_portTokens, ih,
      List.map_cons, List.sum_cons]
    rfl

mutual

private theorem identifiers_treeTokens : (t : ComponentTree α) →
    identifiers (treeTokens t) = ((Tree.values [t]).map componentNeeds).sum
  | .node c children => by
    rw [treeTokens, Tree.values_node, List.map_cons, List.sum_cons,
      ← identifiers_forestTokens children, componentNeeds, ← identifiers_portsTokens]
    split
    · rename_i hempty
      obtain ⟨hnil, hports⟩ := Bool.and_eq_true_iff.mp hempty
      rw [List.isEmpty_iff] at hnil hports
      rw [identifiers_append, identifiers_headTokens, hnil, portsTokens, hports]
      rfl
    · simp [identifiers_append, identifiers_cons, identifiers_headTokens, token, lineEnd]
      omega

private theorem identifiers_forestTokens : (ts : List (ComponentTree α)) →
    identifiers (forestTokens ts) = ((Tree.values ts).map componentNeeds).sum
  | [] => rfl
  | t :: ts => by
    rw [forestTokens, identifiers_append, identifiers_treeTokens t, identifiers_forestTokens ts,
      Tree.values_cons t ts, List.map_append, List.sum_append]

end

/-- The identifiers that a connector is printed with. -/
def connectorHas (c : Connector) : Nat :=
  c.name.toList.length + c.interfaceName.toList.length +
    (identifiers (cut (endpointText c.source).toList) +
      identifiers (cut (endpointText c.target).toList)) + identifiers (labelTokens c.label)

private theorem identifiers_connectorTokens (c : Connector) :
    identifiers (connectorTokens c) = connectorHas c := by
  have hdrawn : drawnKind c.kind ≠ .identifier := by
    cases c.kind <;> simp [drawnKind]
  rw [connectorTokens, connectorHas]
  cases c.name <;> cases c.interfaceName <;>
    simp [identifiers_append, identifiers_cons, identifiers_brackets, token, hdrawn] <;> omega

/-- The identifiers of the source of a document. -/
theorem identifiers_insideTokens (doc : Document α) : identifiers (insideTokens doc) =
    (doc.components.map componentNeeds).sum + (doc.connectors.map connectorHas).sum := by
  have hedges : identifiers (doc.connectors.flatMap fun c => connectorTokens c ++ [lineEnd]) =
      (doc.connectors.map connectorHas).sum := by
    induction doc.connectors with
    | nil => rfl
    | cons c cs ih =>
      rw [List.flatMap_cons, identifiers_append, identifiers_append, identifiers_connectorTokens, ih,
        List.map_cons, List.sum_cons]
      rfl
  have hgap : identifiers (if doc.roots.isEmpty || doc.connectors.isEmpty then [] else [lineEnd]) =
      0 := by
    split <;> rfl
  rw [insideTokens]
  simp only [identifiers_append, identifiers_cons, identifiers_forestTokens, hedges, hgap]
  simp [token, lineEnd, Document.components]

/-- The source of a document is read from the brace that opens it on. -/
theorem accepts_documentTokens {limit : Option Nat} {doc : Document α} {type : DiagramType}
    {s : State α} (h : Accepts limit (documentTokens doc) type s) : type = doc.type ∧
      ∃ cs r after, ReadsAll (insideTokens doc) cs (r :: after) ∧ r.kind = .rightBrace ∧
        afterLines after = [] ∧ actAll limit cs {} = some s ∧ s.scope = [] := by
  have hlines : afterLines (documentTokens doc) = documentTokens doc := rfl
  have htype : wrapperType? (documentTokens doc) = some doc.type := ofName?_type doc.type
  cases h with
  | plain ht =>
    rw [hlines, htype] at ht
    cases ht
  | wrapped he ht hc hb hbk hr hrk hafter ha hd =>
    rw [← he, hlines, htype] at ht
    rw [hlines] at he
    cases he
    cases hb
    exact ⟨(Option.some.inj ht).symm, _, _, _, hr, hrk, hafter, ha, hd⟩

end Print

/-! ## A source that lacks no identifier -/

private theorem eq_of_sum_le {β : Type} {f g : β → Nat} {l : List β} (h : ∀ b ∈ l, f b ≤ g b)
    (hs : (l.map g).sum ≤ (l.map f).sum) : ∀ b ∈ l, g b = f b := by
  have hle (m : List β) (hm : ∀ b ∈ m, f b ≤ g b) : (m.map f).sum ≤ (m.map g).sum := by
    induction m with
    | nil => exact Nat.le_refl _
    | cons b m ih =>
      obtain ⟨hb, hm⟩ := List.forall_mem_cons.mp hm
      have := ih hm
      simp only [List.map_cons, List.sum_cons]
      omega
  induction l with
  | nil => simp
  | cons b l ih =>
    obtain ⟨hb, hl⟩ := List.forall_mem_cons.mp h
    have hrest := hle l hl
    simp only [List.map_cons, List.sum_cons] at hs
    exact List.forall_mem_cons.mpr ⟨by omega, ih hl (by omega)⟩

/-- An end that is cut to an identifier is one. -/
private theorem identifiers_end {e : Endpoint} (h : e.IsRead) :
    identifiers (cut (endpointText e).toList) ≤ 1 ∧
      (identifiers (cut (endpointText e).toList) = 1 → IsIdentifier (endpointText e)) := by
  rcases h.cut_text with hc | ⟨k, -, hc⟩
  · rw [hc]
    exact ⟨Nat.zero_le 1, fun h => nomatch h⟩
  · by_cases hk : k = .identifier
    · subst hk
      refine ⟨by rw [hc]; exact Nat.le_refl 1, fun _ => ?_⟩
      exact (isValue_iff (by decide) (by decide)).mpr hc
    · have hzero : identifiers (cut (endpointText e).toList) = 0 := by
        rw [hc, identifiers_cons]
        simp [token, hk]
      rw [hzero]
      exact ⟨Nat.zero_le 1, fun h => nomatch h⟩

/-- Where the source of a document is read as the document, each end is an identifier. -/
theorem connectors_isLegible [Scalar α] {doc : Document α} (h : doc.IsRead)
    (hts : ∀ t ∈ documentTokens doc, IsToken t) {limit : Option Nat} {type : DiagramType}
    {s : State α} (ha : Accepts limit (documentTokens doc) type s) (hd : s.diagnostics = [])
    (hc : s.components = doc.components) (hk : s.connectors = doc.connectors) :
    ∀ c ∈ doc.connectors, c.IsLegible := by
  obtain ⟨-, cs, r, after, hr, -, -, hact, -⟩ := accepts_documentTokens ha
  have hinside : ∀ t ∈ insideTokens doc, IsToken t := fun t ht => hts t (by simp [documentTokens, ht])
  have hneeds := hr.needs hinside hact isClean_empty hd
  have hempty : ({} : State α).needs = 0 := rfl
  rw [hempty, State.needs, hc, hk, identifiers_insideTokens] at hneeds
  have hends {c : Connector} (hmem : c ∈ doc.connectors) := h.connector hmem
  have hle : ∀ c ∈ doc.connectors, connectorHas c ≤ connectorNeeds c := by
    intro c hmem
    obtain ⟨_, hplace⟩ := hends hmem
    have hsource := (identifiers_end hplace.source).1
    have htarget := (identifiers_end hplace.target).1
    rw [connectorHas, connectorNeeds]
    omega
  intro c hmem
  have heq := eq_of_sum_le hle (by omega) c hmem
  obtain ⟨_, hplace⟩ := hends hmem
  have hsource := identifiers_end hplace.source
  have htarget := identifiers_end hplace.target
  rw [connectorHas, connectorNeeds] at heq
  exact ⟨hplace.toIsWellFormed, hsource.2 (by omega), htarget.2 (by omega)⟩

end ComponentDiagram
