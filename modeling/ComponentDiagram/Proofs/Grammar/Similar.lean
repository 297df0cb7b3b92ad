import ComponentDiagram.Proofs.Grammar.Acceptance
import ComponentDiagram.Proofs.Source.Cut

/-! Tokens that read alike. Whatever relates two lists of tokens, a clause at the front of one
stands at the front of the other as well, if the relation keeps what clauses ask for. -/
namespace ComponentDiagram.Grammar

/-- A kind of token that clauses ask for: neither a line end nor a character without a meaning. -/
def isFixed (k : TokenKind) : Bool := k != .newline && k != .other && k != .endOfInput

theorem isFixed_of_isConnector {k : TokenKind} (h : k.isConnector = true) : isFixed k = true := by
  cases k <;> first | rfl | cases h

/-- What a label gathers: up to a line end, and whatever has no meaning. -/
structure IsRun (p : Token → Bool) : Prop where
  kind : ∀ t u : Token, t.kind = u.kind → p t = p u
  newline : ∀ t : Token, t.kind = .newline → p t = false
  other : ∀ t : Token, t.kind = .other → p t = true

theorem isRun_inHead : IsRun inHead :=
  ⟨fun t u h => by rw [inHead, inHead, h], fun t h => by rw [inHead, h]; rfl,
    fun t h => by rw [inHead, h]; rfl⟩

theorem isRun_inLine : IsRun inLine :=
  ⟨fun t u h => by rw [inLine, inLine, h], fun t h => by rw [inLine, h]; rfl,
    fun t h => by rw [inLine, h]; rfl⟩

/-- Related tokens have in common what clauses ask for, and the labels that are gathered. -/
structure Similarity (R : List Token → List Token → Prop) : Prop where
  forth : ∀ {t ts us}, R (t :: ts) us → isFixed t.kind = true →
    ∃ u us', us = u :: us' ∧ u.kind = t.kind ∧ u.text = t.text ∧ R ts us'
  back : ∀ {ts u us}, R ts (u :: us) → isFixed u.kind = true →
    ∃ t ts', ts = t :: ts' ∧ t.kind = u.kind ∧ t.text = u.text ∧ R ts' us
  run : ∀ {p ts us}, IsRun p → R ts us →
    Reader.joined (ts.takeWhile p) = Reader.joined (us.takeWhile p) ∧
      R (ts.dropWhile p) (us.dropWhile p)

variable {α : Type}

/-- A clause whose tokens stand nowhere in particular. -/
def Clause.unplaced : Clause α → Clause α
  | .skipped t => .skipped t.unplaced
  | .component opening id label place opens => .component opening.unplaced id label place opens
  | .port opening id target side label => .port opening.unplaced id target side label
  | c => c

/-- The head or the end of a statement. -/
def Clause.isStatement : Clause α → Bool
  | .newline => false
  | .skipped _ => false
  | _ => true

theorem unplaced_eq {t u : Token} (hk : u.kind = t.kind) (ht : u.text = t.text) :
    u.unplaced = t.unplaced := by
  rw [Token.unplaced, Token.unplaced, hk, ht]

theorem Brackets.of_kind {o i c o' i' c' : Token} (h : Brackets o i c) (ho : o'.kind = o.kind)
    (hi : i'.kind = i.kind) (hc : c'.kind = c.kind) : Brackets o' i' c' :=
  ⟨ho.trans h.opening, hi.trans h.inner, hc.trans h.closing⟩

theorem connectorKind_of_kind {t u : Token} (hk : u.kind = t.kind) (ht : u.text = t.text) :
    Reader.connectorKind u = Reader.connectorKind t := by
  rw [Reader.connectorKind, Reader.connectorKind, hk, ht]

private theorem trailing_none {ts : List Token} (h : headKind ts ≠ .colon) :
    trailing ts = (none, ts) := by
  cases ts with
  | nil => rfl
  | cons t ts => exact if_neg h

private theorem brace_none {ts : List Token} (h : headKind ts ≠ .leftBrace) :
    brace ts = (false, ts) := by
  cases ts with
  | nil => rfl
  | cons t ts => exact if_neg h

namespace Similarity

variable {R : List Token → List Token → Prop}

theorem flip (h : Similarity R) : Similarity fun ts us => R us ts :=
  ⟨h.back, h.forth, fun hp hr => ⟨(h.run hp hr).1.symm, (h.run hp hr).2⟩⟩

private theorem headKind_of (h : Similarity R) {ts us : List Token} (hr : R ts us) {k : TokenKind}
    (hk : isFixed k = true) (he : headKind ts = k) : headKind us = k := by
  cases ts with
  | nil =>
    subst he
    cases hk
  | cons t ts =>
    have hfixed : isFixed t.kind = true := by rw [show t.kind = k from he]; exact hk
    obtain ⟨u, us', rfl, hu, -, -⟩ := h.forth hr hfixed
    exact hu.trans he

theorem headKind_iff (h : Similarity R) {ts us : List Token} (hr : R ts us) {k : TokenKind}
    (hk : isFixed k = true) : headKind ts = k ↔ headKind us = k :=
  ⟨h.headKind_of hr hk, h.flip.headKind_of hr hk⟩

private theorem startsEdge_of (h : Similarity R) {ts us : List Token} (hr : R ts us)
    (he : startsEdge ts = true) : startsEdge us = true := by
  match ts, he with
  | a :: b :: ts, he =>
    rw [startsEdge, Bool.and_eq_true, Bool.or_eq_true, Bool.and_eq_true, beq_iff_eq,
      beq_iff_eq] at he
    obtain ⟨ha, he⟩ := he
    obtain ⟨u, us', rfl, hu, -, hr⟩ := h.forth hr (by rw [ha]; rfl)
    have hb : isFixed b.kind = true := by
      rcases he with hb | ⟨hb, -⟩
      · exact isFixed_of_isConnector hb
      · rw [hb]; rfl
    obtain ⟨v, us'', rfl, hv, -, hr⟩ := h.forth hr hb
    have hthird (hc : (headKind ts).isConnector = true) : headKind us'' = headKind ts :=
      (h.headKind_iff hr (isFixed_of_isConnector hc)).mp rfl
    rw [startsEdge, Bool.and_eq_true, Bool.or_eq_true, Bool.and_eq_true, beq_iff_eq, beq_iff_eq,
      hu, hv]
    exact ⟨ha, he.imp_right (And.imp_right fun hc => by rw [hthird hc]; exact hc)⟩

theorem startsEdge (h : Similarity R) {ts us : List Token} (hr : R ts us) :
    startsEdge ts = startsEdge us :=
  Bool.eq_iff_iff.mpr ⟨h.startsEdge_of hr, h.flip.startsEdge_of hr⟩

private theorem wrapperType?_of (h : Similarity R) {ts us : List Token} (hr : R ts us)
    {type : DiagramType} (ht : wrapperType? ts = some type) : wrapperType? us = some type := by
  match ts, ht with
  | o :: n :: ts, ht =>
    rw [wrapperType?] at ht
    split at ht
    · rename_i hk
      rw [Bool.and_eq_true, beq_iff_eq, beq_iff_eq] at hk
      obtain ⟨u, us', rfl, hu, -, hr⟩ := h.forth hr (by rw [hk.1]; rfl)
      obtain ⟨v, us'', rfl, hv, htext, -⟩ := h.forth hr (by rw [hk.2]; rfl)
      rw [wrapperType?, hu, hv, htext, hk.1, hk.2]
      exact ht
    · cases ht

theorem wrapperType? (h : Similarity R) {ts us : List Token} (hr : R ts us) :
    wrapperType? ts = wrapperType? us :=
  Option.ext fun _ => ⟨h.wrapperType?_of hr, h.flip.wrapperType?_of hr⟩

theorem trailing (h : Similarity R) {ts us : List Token} (hr : R ts us) :
    (trailing ts).1 = (trailing us).1 ∧ R (trailing ts).2 (trailing us).2 := by
  by_cases hc : headKind ts = .colon
  · match ts, hc with
    | t :: ts, hc =>
      have ht : t.kind = .colon := hc
      obtain ⟨u, us', rfl, hu, -, hr⟩ := h.forth hr (by rw [ht]; rfl)
      obtain ⟨hjoined, hrest⟩ := h.run isRun_inLine hr
      rw [Grammar.trailing, Grammar.trailing, if_pos ht, if_pos (hu.trans ht)]
      exact ⟨congrArg some hjoined, hrest⟩
  · rw [trailing_none hc, trailing_none fun he => hc ((h.headKind_iff hr rfl).mpr he)]
    exact ⟨rfl, hr⟩

theorem brace (h : Similarity R) {ts us : List Token} (hr : R ts us) :
    (brace ts).1 = (brace us).1 ∧ R (brace ts).2 (brace us).2 := by
  by_cases hb : headKind ts = .leftBrace
  · match ts, hb with
    | t :: ts, hb =>
      have ht : t.kind = .leftBrace := hb
      obtain ⟨u, us', rfl, hu, -, hr⟩ := h.forth hr (by rw [ht]; rfl)
      rw [Grammar.brace, Grammar.brace, if_pos ht, if_pos (hu.trans ht)]
      exact ⟨rfl, hr⟩
  · rw [brace_none hb, brace_none fun he => hb ((h.headKind_iff hr rfl).mpr he)]
    exact ⟨rfl, hr⟩

theorem brackets (h : Similarity R) {o i c : Token} {ts us : List Token}
    (hr : R (o :: i :: c :: ts) us) (hb : Brackets o i c) : ∃ o' i' c' us',
      us = o' :: i' :: c' :: us' ∧ Brackets o' i' c' ∧ o'.unplaced = o.unplaced ∧
      i'.text = i.text ∧ R ts us' := by
  obtain ⟨o', us, rfl, ho, hot, hr⟩ := h.forth hr (by rw [hb.opening]; rfl)
  obtain ⟨i', us, rfl, hi, hit, hr⟩ := h.forth hr (by rw [hb.inner]; rfl)
  obtain ⟨c', us, rfl, hc, -, hr⟩ := h.forth hr (by rw [hb.closing]; rfl)
  exact ⟨o', i', c', us, rfl, hb.of_kind ho hi hc, unplaced_eq ho hot, hit, hr⟩

theorem ends (h : Similarity R) {ts us rest : List Token} {iface : Option String}
    {source target : String} {drawn : Token} (he : Ends ts iface source drawn target rest)
    (hr : R ts us) : ∃ drawn' rest', Ends us iface source drawn' target rest' ∧
      drawn'.kind = drawn.kind ∧ drawn'.text = drawn.text ∧ R rest rest' := by
  cases he with
  | bare hs hd ht =>
    obtain ⟨u, us, rfl, hu, hu', hr⟩ := h.forth hr (by rw [hs]; rfl)
    obtain ⟨v, us, rfl, hv, hv', hr⟩ := h.forth hr (isFixed_of_isConnector hd)
    obtain ⟨w, us, rfl, hw, hw', hr⟩ := h.forth hr (by rw [ht]; rfl)
    rw [← hu', ← hw']
    exact ⟨v, us, .bare (hu.trans hs) (hv ▸ hd) (hw.trans ht), hv, hv', hr⟩
  | named hf hs hd ht =>
    obtain ⟨f, us, rfl, hf', hft, hr⟩ := h.forth hr (by rw [hf]; rfl)
    obtain ⟨u, us, rfl, hu, hu', hr⟩ := h.forth hr (by rw [hs]; rfl)
    obtain ⟨v, us, rfl, hv, hv', hr⟩ := h.forth hr (isFixed_of_isConnector hd)
    obtain ⟨w, us, rfl, hw, hw', hr⟩ := h.forth hr (by rw [ht]; rfl)
    rw [← hu', ← hw', ← hft]
    exact ⟨v, us, .named (hf'.trans hf) (hu.trans hs) (hv ▸ hd) (hw.trans ht), hv, hv', hr⟩

section

variable [Scalar α]

theorem placed (h : Similarity R) {ts us rest : List Token} {place : Option (α × α)}
    (hp : Placed ts place rest) (hr : R ts us) : ∃ rest', Placed us place rest' ∧ R rest rest' := by
  cases hp with
  | absent hk => exact ⟨us, .absent fun he => hk ((h.headKind_iff hr rfl).mpr he), hr⟩
  | present hk ha hc hd hx hy =>
    obtain ⟨t, us, rfl, ht, -, hr⟩ := h.forth hr (by rw [hk]; rfl)
    obtain ⟨u, us, rfl, hu, hu', hr⟩ := h.forth hr (by rw [ha]; rfl)
    obtain ⟨v, us, rfl, hv, -, hr⟩ := h.forth hr (by rw [hc]; rfl)
    obtain ⟨w, us, rfl, hw, hw', hr⟩ := h.forth hr (by rw [hd]; rfl)
    exact ⟨us, .present (ht.trans hk) (hu.trans ha) (hv.trans hc) (hw.trans hd) (hu' ▸ hx)
      (hw' ▸ hy), hr⟩

/-- A statement at the front of some tokens stands at the front of similar ones. -/
theorem reads (h : Similarity R) {ts us rest : List Token} {c : Clause α} (hc : Reads ts c rest)
    (hs : c.isStatement = true) (hr : R ts us) :
    ∃ c' rest', Reads us c' rest' ∧ c'.unplaced = c.unplaced ∧ R rest rest' := by
  cases hc with
  | newline => cases hs
  | skipped => cases hs
  | closing hk =>
    obtain ⟨u, us, rfl, hu, -, hr⟩ := h.forth hr (by rw [hk]; rfl)
    exact ⟨.closing, us, .closing (hu.trans hk), rfl, hr⟩
  | edge hends hk =>
    obtain ⟨d, us, hends', hd, ht, hr⟩ := h.ends hends hr
    obtain ⟨hlabel, hrest⟩ := h.trailing hr
    rw [hlabel]
    exact ⟨_, _, .edge hends' ((connectorKind_of_kind hd ht).trans hk), rfl, hrest⟩
  | namedEdge hb hends hk =>
    obtain ⟨o, i, c, us, rfl, hb', -, hit, hr⟩ := h.brackets hr hb
    obtain ⟨d, us, hends', hd, ht, hr⟩ := h.ends hends hr
    obtain ⟨hlabel, hrest⟩ := h.trailing hr
    rw [hlabel, ← hit]
    exact ⟨_, _, .namedEdge hb' hends' ((connectorKind_of_kind hd ht).trans hk), rfl, hrest⟩
  | component hb hedge hp =>
    obtain ⟨o, i, c, us, rfl, hb', ho, hit, hr⟩ := h.brackets hr hb
    obtain ⟨hjoined, hhead⟩ := h.run isRun_inHead hr
    obtain ⟨rest', hp', hrest⟩ := h.placed hp hhead
    obtain ⟨hopens, hinside⟩ := h.brace hrest
    rw [hjoined, hopens, ← hit]
    refine ⟨_, _, .component hb' (h.startsEdge hr ▸ hedge) hp', ?_, hinside⟩
    simp only [Clause.unplaced, ho]
  | @port p o i c word o' i' c' s ts target side hp hb hw hb' hn hk hside =>
    have hword : isFixed word.kind = true := by
      rw [hw]
      cases target <;> rfl
    obtain ⟨p, us, rfl, hp', hpt, hr⟩ := h.forth hr (by rw [hp]; rfl)
    obtain ⟨o, i, c, us, rfl, hb₁, -, hit, hr⟩ := h.brackets hr hb
    obtain ⟨w, us, rfl, hw', -, hr⟩ := h.forth hr hword
    obtain ⟨o', i', c', us, rfl, hb₂, -, hit', hr⟩ := h.brackets hr hb'
    obtain ⟨s, us, rfl, hs, hst, hr⟩ := h.forth hr (by rw [hk]; rfl)
    obtain ⟨hlabel, hrest⟩ := h.trailing hr
    rw [hlabel, ← hit]
    refine ⟨_, _, .port (hp'.trans hp) hb₁ (hw'.trans hw) hb₂ (hit'.trans hn) (hs.trans hk)
      (hst ▸ hside), ?_, hrest⟩
    simp only [Clause.unplaced, unplaced_eq hp' hpt]

end

end Similarity

end ComponentDiagram.Grammar
