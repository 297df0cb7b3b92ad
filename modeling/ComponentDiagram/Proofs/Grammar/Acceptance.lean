import ComponentDiagram.Proofs.Grammar.Blocks

/-! Which tokens make a diagram, and which diagram they make. -/
namespace ComponentDiagram.Grammar

variable {α : Type}

theorem afterLines_newline {t : Token} (ht : t.kind = .newline) (ts : List Token) :
    afterLines (t :: ts) = afterLines ts :=
  List.dropWhile_cons_of_pos (beq_iff_eq.mpr ht)

theorem afterLines_self {ts : List Token} (h : headKind ts ≠ .newline) : afterLines ts = ts := by
  cases ts with
  | nil => rfl
  | cons t ts => exact List.dropWhile_cons_of_neg (by simpa [headKind] using h)

/-- The type that a wrapper at the front of some tokens names. -/
def wrapperType? : List Token → Option DiagramType
  | o :: n :: _ =>
    if o.kind == .leftBracket && n.kind == .identifier then DiagramType.ofName? n.text else none
  | _ => none

/-- The tokens make a diagram of a type with what a state has gathered: clauses that leave nothing
open, alone or between the braces of a wrapper. -/
inductive Accepts [Scalar α] (limit : Option Nat) : List Token → DiagramType → State α → Prop
  | plain {ts cs s} : wrapperType? (afterLines ts) = none →
      ReadsAll (afterLines ts) cs [] → actAll limit cs {} = some s → s.scope = [] →
      Accepts limit ts .component s
  | wrapped {ts o n c rest b inner cs r after type s} : afterLines ts = o :: n :: c :: rest →
      wrapperType? (o :: n :: c :: rest) = some type → c.kind = .rightBracket →
      afterLines rest = b :: inner → b.kind = .leftBrace →
      ReadsAll inner cs (r :: after) → r.kind = .rightBrace → afterLines after = [] →
      actAll limit cs {} = some s → s.scope = [] → Accepts limit ts type s

/-- What is read where no wrapper starts. -/
def Reader.plainPart [Scalar α] (input : Input) : Reader α (Document α) := do
  Reader.block input
  let t ← Reader.current input
  if t.kind == .rightBrace then
    Reader.failAt input "Unexpected '\x7d' without matching '\x7b'" t
  return (← get).document .component

/-- What is read where a wrapper starts. -/
def Reader.wrappedPart [Scalar α] (input : Input) (type : DiagramType) :
    Reader α (Document α) := do
  let _ ← Reader.advance input
  let _ ← Reader.advance input
  let _ ← Reader.expect input .rightBracket "Expected ']' after diagram type"
  Reader.skipNewlines input
  let _ ← Reader.expect input .leftBrace s!"Expected '\x7b' to open {type.name} diagram"
  Reader.block input
  let _ ← Reader.expect input .rightBrace s!"Expected '\x7d' to close {type.name} diagram"
  Reader.skipNewlines input
  let t ← Reader.current input
  if t.kind != .endOfInput then
    Reader.failAt input "Unexpected content after diagram block" t
  return (← get).document type

/-- What is read behind the block of a wrapper. -/
def Reader.wrapperEnd (input : Input) (type : DiagramType) : Reader α (Document α) := do
  let _ ← Reader.expect input .rightBrace s!"Expected '\x7d' to close {type.name} diagram"
  Reader.skipNewlines input
  let t ← Reader.current input
  if t.kind != .endOfInput then
    Reader.failAt input "Unexpected content after diagram block" t
  return (← get).document type

theorem Reader.wrappedPart_eq [Scalar α] (input : Input) (type : DiagramType) :
    (Reader.wrappedPart input type : Reader α (Document α)) = (do
      let _ ← Reader.advance input
      let _ ← Reader.advance input
      let _ ← Reader.expect input .rightBracket "Expected ']' after diagram type"
      Reader.skipNewlines input
      let _ ← Reader.expect input .leftBrace s!"Expected '\x7b' to open {type.name} diagram"
      Reader.block input
      Reader.wrapperEnd input type) := rfl

section

variable [Scalar α] {input : Input} {body : List Token} {last : Token}
  (hin : input.Holds body last)

theorem afterLines_suffix {ts : List Token} (hs : ts <:+ body) : afterLines ts <:+ body :=
  (List.dropWhile_suffix _).trans hs

include hin

omit [Scalar α] in
theorem wrapper?_facing {ts : List Token} (hs : ts <:+ body) (s : State α) :
    Reader.wrapper? input (facing body ts s) = .ok (wrapperType? ts) (facing body ts s) := by
  have h0 := kind_at hin hs 0
  have h1 := token_at hin hs 1
  rw [Reader.wrapper?, Reader.bind_of_ok (Reader.get_run _)]
  simp only [facing, h1]
  rw [Nat.add_zero, List.drop_zero] at h0
  simp only [h0]
  rcases ts with _ | ⟨o, _ | ⟨n, rest⟩⟩
  · rfl
  · simp [wrapperType?, hin.last]
  · simp only [headKind, wrapperType?, List.drop_succ_cons, List.drop_zero, List.headD_cons]
    split <;> rfl

private theorem plain_ok {ts : List Token} (hs : ts <:+ body) {doc : Document α} :
    (∃ s', Reader.plainPart input (facing body ts {}) = .ok doc s') ↔
      ∃ cs s, ReadsAll ts cs [] ∧ actAll input.depthLimit cs {} = some s ∧ s.scope = [] ∧
        doc = s.document .component := by
  rw [Reader.plainPart]
  constructor
  · rintro ⟨s', h⟩
    rw [Reader.bind_ok] at h
    obtain ⟨_, s₁, h₁, h⟩ := h
    obtain ⟨cs, rest, s, hr, ha, he, hd, rfl⟩ := (block_ok hin hs rfl).mp h₁
    rcases he with rfl | he
    · rw [Reader.bind_of_ok (Reader.current_nil hin s), if_neg (by simp [hin.last])] at h
      cases h
      exact ⟨cs, s, hr, ha, hd, rfl⟩
    · match rest with
      | [] => cases he
      | t :: rest =>
        rw [Reader.bind_of_ok (Reader.current_cons hin (hr.suffix.trans hs) s),
          if_pos (beq_iff_eq.mpr (show t.kind = _ from he)), Reader.bind_ok] at h
        simp [Reader.failAt] at h
  · rintro ⟨cs, s, hr, ha, hd, rfl⟩
    have hblock := (block_ok hin hs rfl).mpr ⟨cs, [], s, hr, ha, .inl rfl, hd, rfl⟩
    rw [Reader.bind_of_ok hblock, Reader.bind_of_ok (Reader.current_nil hin s),
      if_neg (by simp [hin.last])]
    exact ⟨_, rfl⟩

omit [Scalar α] in
private theorem wrapperEnd_ok {ts : List Token} (hs : ts <:+ body) {type : DiagramType}
    {s : State α} {doc : Document α} :
    (∃ s', Reader.wrapperEnd input type (facing body ts s) = .ok doc s') ↔
      ∃ r after, ts = r :: after ∧ r.kind = .rightBrace ∧ afterLines after = [] ∧
        doc = s.document type := by
  rw [Reader.wrapperEnd]
  constructor
  · rintro ⟨s', h⟩
    rw [Reader.bind_ok] at h
    obtain ⟨r, s₁, h₁, h⟩ := h
    obtain ⟨after, rfl, hrk, rfl⟩ := (Reader.expect_ok hin (by decide) hs).mp h₁
    have hs' := suffix_of_cons hs
    rw [Reader.bind_of_ok (Reader.skipNewlines_facing hin hs' _)] at h
    cases hafter : afterLines after with
    | nil =>
      rw [hafter, Reader.bind_of_ok (Reader.current_nil hin s), if_neg (by simp [hin.last])] at h
      cases h
      exact ⟨r, after, rfl, hrk, hafter, rfl⟩
    | cons t rest =>
      have hlines := afterLines_suffix hs'
      rw [hafter] at h hlines
      rw [Reader.bind_of_ok (Reader.current_cons hin hlines s),
        if_pos (bne_iff_ne.mpr (ne_endOfInput_of_suffix hin hlines)), Reader.bind_ok] at h
      simp [Reader.failAt] at h
  · rintro ⟨r, after, rfl, hrk, hafter, rfl⟩
    have hskip := Reader.skipNewlines_facing hin (suffix_of_cons hs) s
    rw [hafter] at hskip
    rw [Reader.bind_of_ok (Reader.expect_cons hin (by decide) hs hrk _), Reader.bind_of_ok hskip,
      Reader.bind_of_ok (Reader.current_nil hin s), if_neg (by simp [hin.last])]
    exact ⟨_, rfl⟩

private theorem wrapped_ok {ts : List Token} (hs : ts <:+ body) {type : DiagramType}
    (ht : wrapperType? ts = some type) {doc : Document α} :
    (∃ s', Reader.wrappedPart input type (facing body ts {}) = .ok doc s') ↔
      ∃ o n c rest b inner cs r after s, ts = o :: n :: c :: rest ∧ c.kind = .rightBracket ∧
        afterLines rest = b :: inner ∧ b.kind = .leftBrace ∧ ReadsAll inner cs (r :: after) ∧
        r.kind = .rightBrace ∧ afterLines after = [] ∧ actAll input.depthLimit cs {} = some s ∧
        s.scope = [] ∧ doc = s.document type := by
  rw [Reader.wrappedPart_eq]
  match ts with
  | [] => cases ht
  | [o] => cases ht
  | o :: n :: ts =>
    have hs₁ := suffix_of_cons hs
    have hs₂ := suffix_of_cons hs₁
    rw [Reader.bind_of_ok (Reader.advance_facing hin hs _),
      Reader.bind_of_ok (Reader.advance_facing hin hs₁ _)]
    constructor
    · rintro ⟨s', h⟩
      rw [Reader.bind_ok] at h
      obtain ⟨c, s₁, h₁, h⟩ := h
      obtain ⟨rest, rfl, hc, rfl⟩ := (Reader.expect_ok hin (by decide) hs₂).mp h₁
      have hs₃ := afterLines_suffix (suffix_of_cons hs₂)
      rw [Reader.bind_of_ok (Reader.skipNewlines_facing hin (suffix_of_cons hs₂) _),
        Reader.bind_ok] at h
      obtain ⟨b, s₂, h₂, h⟩ := h
      obtain ⟨inner, hb, hbk, rfl⟩ := (Reader.expect_ok hin (by decide) hs₃).mp h₂
      rw [hb] at hs₃
      rw [Reader.bind_ok] at h
      obtain ⟨_, s₃, h₃, h⟩ := h
      obtain ⟨cs, rest', s, hr, ha, -, hd, rfl⟩ := (block_ok hin (suffix_of_cons hs₃) rfl).mp h₃
      have hs₄ := hr.suffix.trans (suffix_of_cons hs₃)
      obtain ⟨r, after, rfl, hrk, hafter, rfl⟩ := (wrapperEnd_ok hin hs₄).mp ⟨s', h⟩
      exact ⟨o, n, c, rest, b, inner, cs, r, after, s, rfl, hc, hb, hbk, hr, hrk, hafter, ha, hd,
        rfl⟩
    · rintro ⟨o', n', c, rest, b, inner, cs, r, after, s, he, hc, hb, hbk, hr, hrk, hafter, ha, hd,
        rfl⟩
      cases he
      have hs₃ := afterLines_suffix (suffix_of_cons hs₂)
      have hskip := Reader.skipNewlines_facing hin (suffix_of_cons hs₂) ({} : State α)
      rw [hb] at hs₃ hskip
      have hs₄ := hr.suffix.trans (suffix_of_cons hs₃)
      have hblock := (block_ok hin (suffix_of_cons hs₃) rfl).mpr
        ⟨cs, r :: after, s, hr, ha, .inr hrk, hd, rfl⟩
      rw [Reader.bind_of_ok (Reader.expect_cons hin (by decide) hs₂ hc _), Reader.bind_of_ok hskip,
        Reader.bind_of_ok (Reader.expect_cons hin (by decide) hs₃ hbk _), Reader.bind_of_ok hblock]
      exact (wrapperEnd_ok hin hs₄).mpr ⟨r, after, rfl, hrk, hafter, rfl⟩

/-- A diagram is read exactly where its tokens make one. -/
theorem document_ok {doc : Document α} :
    (∃ s, Reader.document input {} = .ok doc s) ↔
      ∃ type s, Accepts input.depthLimit body type s ∧ doc = s.document type := by
  have hs : afterLines body <:+ body := afterLines_suffix (List.suffix_refl body)
  have hskip := Reader.skipNewlines_facing hin (List.suffix_refl body) ({} : State α)
  rw [show facing body body ({} : State α) = {} by simp [facing]] at hskip
  rw [Reader.document, Reader.bind_of_ok hskip, Reader.bind_of_ok (wrapper?_facing hin hs _)]
  cases ht : wrapperType? (afterLines body) with
  | none =>
    refine (plain_ok hin hs).trans ?_
    constructor
    · rintro ⟨cs, s, hr, ha, hd, rfl⟩
      exact ⟨_, s, .plain ht hr ha hd, rfl⟩
    · rintro ⟨type, s, h, rfl⟩
      cases h with
      | plain _ hr ha hd => exact ⟨_, s, hr, ha, hd, rfl⟩
      | wrapped he ht' => rw [← he, ht] at ht'; cases ht'
  | some type =>
    refine (wrapped_ok hin hs ht).trans ?_
    constructor
    · rintro ⟨o, n, c, rest, b, inner, cs, r, after, s, he, hc, hb, hbk, hr, hrk, hafter, ha, hd,
        rfl⟩
      exact ⟨type, s, .wrapped he (he ▸ ht) hc hb hbk hr hrk hafter ha hd, rfl⟩
    · rintro ⟨type', s, h, rfl⟩
      cases h with
      | plain ht' => rw [ht] at ht'; cases ht'
      | wrapped he ht' hc hb hbk hr hrk hafter ha hd =>
        rw [← he, ht] at ht'
        cases ht'
        exact ⟨_, _, _, _, _, _, _, _, _, s, he, hc, hb, hbk, hr, hrk, hafter, ha, hd, rfl⟩

end

end ComponentDiagram.Grammar
