import ComponentDiagram.Proofs.Grammar.Refusing

/-! Where a statement fails with anything but a syntax error: at a position whose coordinate is too
long or too large. -/
namespace ComponentDiagram
namespace Grammar

/-- A position with a coordinate that cannot be read, the first one or the second. -/
inductive Oversized (α : Type) [Scalar α] (e : Failure) : List Token → Prop
  | across {sign across ts} : sign.kind = .atSign → across.kind = .number →
      (Reader.coordinateOf across.text : Except Failure α) = .error e →
      Oversized α e (sign :: across :: ts)
  | down {sign across comma down ts} {x : α} : sign.kind = .atSign → across.kind = .number →
      Reader.coordinateOf across.text = .ok x → comma.kind = .comma → down.kind = .number →
      (Reader.coordinateOf down.text : Except Failure α) = .error e →
      Oversized α e (sign :: across :: comma :: down :: ts)

/-- A component whose position cannot be read. -/
def Stuck (α : Type) [Scalar α] (e : Failure) (ts : List Token) : Prop :=
  ∃ o i c rest, ts = o :: i :: c :: rest ∧ Brackets o i c ∧ startsEdge rest = false ∧
    Oversized α e (rest.dropWhile inHead)

namespace Reader

variable {α : Type} [Scalar α] {input : Input} {body : List Token} {last : Token}
  (hin : input.Holds body last) {e : Failure} (he : ¬ e.IsSyntax)

include hin he

theorem coordinate_fails {ts : List Token} (hs : ts <:+ body) {s : State α} :
    FailsWith e (coordinate input : Reader α α) (facing body ts s) ↔
      ∃ t rest, ts = t :: rest ∧ t.kind = .number ∧
        (coordinateOf t.text : Except Failure α) = .error e := by
  rw [coordinate, (FailsOnly.expect input _ _).failsWith_bind he]
  constructor
  · rintro ⟨t, s₁, h₁, h⟩
    obtain ⟨rest, rfl, hk, rfl⟩ := (expect_ok hin (by decide) hs).mp h₁
    obtain ⟨s', h⟩ := h
    cases hx : coordinateOf (α := α) t.text with
    | error e' =>
      simp only [hx] at h
      cases h
      exact ⟨t, rest, rfl, hk, hx⟩
    | ok x =>
      simp only [hx] at h
      cases h
  · rintro ⟨t, rest, rfl, hk, hx⟩
    refine ⟨t, _, expect_cons hin (by decide) hs hk s, ?_⟩
    simp only [hx]
    exact ⟨_, rfl⟩

theorem position_fails {ts : List Token} (hs : ts <:+ body) {s : State α} :
    FailsWith e (position input : Reader α (Option (α × α))) (facing body ts s) ↔
      Oversized α e ts := by
  rw [position, failsWith_of_ok (kind_facing hin hs s)]
  by_cases hk : headKind ts = .atSign
  · cases ts with
    | nil => cases hk
    | cons sign ts =>
      have hs₁ := suffix_of_cons hs
      rw [if_neg (by simp [hk]), failsWith_of_ok (advance_facing hin hs s), failsWith_bind,
        coordinate_fails hin he hs₁]
      constructor
      · rintro (⟨across, ts, rfl, ha, hx⟩ | ⟨x, s₁, h₁, h⟩)
        · exact .across hk ha hx
        · obtain ⟨across, ts, rfl, ha, hx, rfl⟩ := (coordinate_ok hin hs₁).mp h₁
          obtain ⟨comma, s₂, h₂, h⟩ := ((FailsOnly.expect input _ _).failsWith_bind he).mp h
          obtain ⟨ts, rfl, hc, rfl⟩ := (expect_ok hin (by decide) (suffix_of_cons hs₁)).mp h₂
          rw [FailsOnly.failsWith_first input (fun _ => .pure _) he,
            coordinate_fails hin he (suffix_of_cons (suffix_of_cons hs₁))] at h
          obtain ⟨down, ts, rfl, hd, hy⟩ := h
          exact .down hk ha hx hc hd hy
      · intro h
        cases h with
        | across _ ha hx => exact .inl ⟨_, _, rfl, ha, hx⟩
        | @down _ across comma down _ x _ ha hx hc hd hy =>
          have hs₂ := suffix_of_cons hs₁
          refine .inr ⟨x, _, (coordinate_ok hin hs₁).mpr ⟨across, _, rfl, ha, hx, rfl⟩, ?_⟩
          rw [failsWith_of_ok (expect_cons hin (by decide) hs₂ hc s),
            FailsOnly.failsWith_first input (fun _ => .pure _) he,
            coordinate_fails hin he (suffix_of_cons hs₂)]
          exact ⟨down, _, rfl, hd, hy⟩
  · rw [if_pos (by simp [hk])]
    constructor
    · rintro ⟨s', h⟩
      cases h
    · intro h
      cases h with
      | across hn => exact absurd hn hk
      | down hn => exact absurd hn hk

omit [Scalar α] in
/-- What follows an identifier in brackets fails, or nothing does. -/
private theorem brackets_fails {β : Type} {ts : List Token} (hs : ts <:+ body) {s : State α}
    {m : String} {m' : Token → String} {f : Token → Token → Reader α β} :
    FailsWith e (expectKind input .leftBracket >>= fun o => expect input .identifier m >>= fun i =>
      expect input .rightBracket (m' i) >>= fun _ => f o i) (facing body ts s) ↔
      ∃ o i c rest, ts = o :: i :: c :: rest ∧ Brackets o i c ∧
        FailsWith e (f o i) (facing body rest s) := by
  rw [(FailsOnly.expectKind input _).failsWith_bind he]
  constructor
  · rintro ⟨o, s₁, h₁, h⟩
    obtain ⟨ts, rfl, ho, rfl⟩ := (expectKind_ok hin (by decide) hs).mp h₁
    have hs₁ := suffix_of_cons hs
    obtain ⟨i, s₂, h₂, h⟩ := ((FailsOnly.expect input _ _).failsWith_bind he).mp h
    obtain ⟨ts, rfl, hi, rfl⟩ := (expect_ok hin (by decide) hs₁).mp h₂
    obtain ⟨c, s₃, h₃, h⟩ := ((FailsOnly.expect input _ _).failsWith_bind he).mp h
    obtain ⟨ts, rfl, hc, rfl⟩ := (expect_ok hin (by decide) (suffix_of_cons hs₁)).mp h₃
    exact ⟨o, i, c, ts, rfl, ⟨ho, hi, hc⟩, h⟩
  · rintro ⟨o, i, c, rest, rfl, hb, h⟩
    have hs₁ := suffix_of_cons hs
    refine ⟨o, _, expectKind_cons hin (by decide) hs hb.opening s, ?_⟩
    rw [failsWith_of_ok (expect_cons hin (by decide) hs₁ hb.inner s)]
    exact (failsWith_of_ok
      (expect_cons hin (by decide) (suffix_of_cons hs₁) hb.closing s)).mpr h

omit [Scalar α] in
private theorem blockPart_fails {block : Reader α Unit} {ts : List Token} (hs : ts <:+ body)
    {made : Component α} {attached : Bool} {m : String} {s : State α} :
    FailsWith e (blockPart input block made attached m) (facing body ts s) ↔
      (brace ts).1 = true ∧
        FailsWith e block (facing body (brace ts).2 (s.enter made attached)) := by
  rw [blockPart, failsWith_of_ok (kind_facing hin hs s)]
  by_cases hk : headKind ts = .leftBrace
  · cases ts with
    | nil => cases hk
    | cons t ts =>
      have hb : brace (t :: ts) = (true, ts) := by rw [brace, if_pos (show t.kind = _ from hk)]
      simp only [hk, beq_self_eq_true, if_true, hb, true_and]
      rw [failsWith_of_ok (advance_facing hin hs s), failsWith_of_ok (modify_run _ _),
        enter_facing]
      exact FailsOnly.failsWith_first input (fun _ => (FailsOnly.expect input _ _).bind fun _ =>
        FailsOnly.get.bind fun _ => (FailsOnly.modify _).bind fun _ => .pure _) he
  · have hb : brace ts = (false, ts) := by
      cases ts with
      | nil => rfl
      | cons t ts => rw [brace, if_neg (show t.kind ≠ _ from hk)]
    simp only [beq_eq_false_iff_ne.mpr hk, Bool.false_eq_true, if_false, hb, false_and, iff_false]
    cases attached <;>
    · rintro ⟨s', h⟩
      cases h

theorem component_fails {block : Reader α Unit} {ts : List Token} (hs : ts <:+ body)
    {s : State α} : FailsWith e (component input block) (facing body ts s) ↔
      ∃ o i c rest, ts = o :: i :: c :: rest ∧ Brackets o i c ∧
        (Oversized α e (rest.dropWhile inHead) ∨
          ∃ place rest' s₁, Placed (rest.dropWhile inHead) place rest' ∧
            (brace rest').1 = true ∧
            (Clause.component o i.text (joined (rest.takeWhile inHead)) place true).act
              input.depthLimit s = some s₁ ∧
            FailsWith e block (facing body (brace rest').2 s₁)) := by
  have hpart {o i c : Token} {rest rest' : List Token} {place : Option (α × α)}
      (hs : o :: i :: c :: rest <:+ body) (hb : Brackets o i c)
      (hp : Placed (rest.dropWhile inHead) place rest') :
      FailsWith e (component input block) (facing body (o :: i :: c :: rest) s) ↔
        (brace rest').1 = true ∧ ∃ s₁,
          (Clause.component o i.text (joined (rest.takeWhile inHead)) place true).act
            input.depthLimit s = some s₁ ∧ FailsWith e block (facing body (brace rest').2 s₁) := by
    obtain ⟨m, hm⟩ := component_eq hin block hs hb hp s
    rw [FailsWith, hm]
    refine (blockPart_fails hin he (hp.suffix.trans ((List.dropWhile_suffix inHead).trans
      ((List.suffix_append [o, i, c] rest).trans hs)))).trans ?_
    simp [Clause.act]
  constructor
  · intro h
    have h' := h
    rw [component] at h'
    obtain ⟨o, i, c, rest, rfl, hb, h'⟩ := (brackets_fails hin he hs).mp h'
    have hs₁ := (List.suffix_append [o, i, c] rest).trans hs
    have hd := (List.dropWhile_suffix inHead).trans hs₁
    rw [failsWith_of_ok (collect_facing hin hs₁ s)] at h'
    refine ⟨o, i, c, rest, rfl, hb, ?_⟩
    rcases failsWith_bind.mp h' with hp | ⟨place, s₁, hp, -⟩
    · exact .inl ((position_fails hin he hd).mp hp)
    · obtain ⟨rest', hp, -⟩ := (position_ok hin hd).mp hp
      obtain ⟨ho, s₁, ha, hf⟩ := (hpart hs hb hp).mp h
      exact .inr ⟨place, rest', s₁, hp, ho, ha, hf⟩
  · rintro ⟨o, i, c, rest, rfl, hb, hover | ⟨place, rest', s₁, hp, ho, ha, hf⟩⟩
    · have hs₁ := (List.suffix_append [o, i, c] rest).trans hs
      have hd := (List.dropWhile_suffix inHead).trans hs₁
      rw [component]
      refine (brackets_fails hin he hs).mpr ⟨o, i, c, rest, rfl, hb, ?_⟩
      rw [failsWith_of_ok (collect_facing hin hs₁ s)]
      exact failsWith_bind.mpr (.inl ((position_fails hin he hd).mpr hover))
    · exact (hpart hs hb hp).mpr ⟨ho, s₁, ha, hf⟩

omit hin he in
private theorem bracket_of_opens {t : Token} {ts rest : List Token} {c : Clause α}
    (h : Reads (t :: ts) c rest) (ho : c.opens = true) : t.kind = .leftBracket := by
  cases h with
  | component hb => exact hb.opening
  | _ => cases ho

omit hin he in
theorem bracket_of_stuck {t : Token} {ts : List Token} (h : Stuck α e (t :: ts)) :
    t.kind = .leftBracket := by
  obtain ⟨o, i, c, rest, hts, hb, -, -⟩ := h
  cases hts
  exact hb.opening

variable (hlegible : ∀ i, (input.token i).IsLegible)

include hlegible

private theorem bracketStatement_fails {block : Reader α Unit} {t : Token} {ts : List Token}
    (hs : t :: ts <:+ body) {s : State α} :
    FailsWith e (bracketStatement input block) (facing body (t :: ts) s) ↔
      Stuck α e (t :: ts) ∨ ∃ c rest s₁, Reads (t :: ts) c rest ∧
        c.act input.depthLimit s = some s₁ ∧ c.opens = true ∧
        FailsWith e block (facing body rest s₁) := by
  rw [bracketStatement, failsWith_of_ok (get_run _)]
  refine (brackets_fails hin he hs).trans ?_
  constructor
  · rintro ⟨o, i, c, rest, hts, hb, h⟩
    cases hts
    have hs₁ := (List.suffix_append [t, i, c] rest).trans hs
    rw [failsWith_of_ok (atEdge_facing hin hs₁ s)] at h
    cases hedge : startsEdge rest with
    | true =>
      rw [hedge, if_pos rfl] at h
      exact absurd (((FailsOnly.edge hlegible _).bind fun _ => .pure _) e _ h).isSyntax he
    | false =>
      rw [hedge, if_neg Bool.false_ne_true, failsWith_of_ok (modify_run _ _),
        FailsOnly.failsWith_first input (fun _ => .pure _) he] at h
      obtain ⟨_, _, _, _, hts, -, hcases⟩ := (component_fails hin he hs (s := s)).mp h
      cases hts
      rcases hcases with hover | ⟨place, rest', s₁, hp, ho, ha, hf⟩
      · exact .inl ⟨t, i, c, rest, rfl, hb, hedge, hover⟩
      · exact .inr ⟨_, _, s₁, .component hb hedge hp, ho ▸ ha, ho, hf⟩
  · rintro (⟨o, i, c, rest, hts, hb, hedge, hover⟩ | ⟨c, rest, s₁, hr, ha, ho, hf⟩)
    · cases hts
      have hs₁ := (List.suffix_append [t, i, c] rest).trans hs
      refine ⟨t, i, c, rest, rfl, hb, ?_⟩
      rw [failsWith_of_ok (atEdge_facing hin hs₁ s), hedge, if_neg Bool.false_ne_true,
        failsWith_of_ok (modify_run _ _), FailsOnly.failsWith_first input (fun _ => .pure _) he]
      exact (component_fails hin he hs (s := s)).mpr ⟨t, i, c, rest, rfl, hb, .inl hover⟩
    · cases hr with
      | @component _ i c ts place rest hb hedge hp =>
        have hs₁ := (List.suffix_append [t, i, c] ts).trans hs
        have hopens : (brace rest).1 = true := ho
        rw [hopens] at ha
        refine ⟨t, i, c, ts, rfl, hb, ?_⟩
        rw [failsWith_of_ok (atEdge_facing hin hs₁ s), hedge, if_neg Bool.false_ne_true,
          failsWith_of_ok (modify_run _ _), FailsOnly.failsWith_first input (fun _ => .pure _) he]
        exact (component_fails hin he hs (s := s)).mpr
          ⟨t, i, c, ts, rfl, hb, .inr ⟨place, rest, s₁, hp, hopens, ha, hf⟩⟩
      | _ => cases ho

/-- A statement fails at its position, or in the block that it opens. -/
theorem statement_fails {block : Reader α Unit} {t : Token} {ts : List Token}
    (hs : t :: ts <:+ body) {s : State α} :
    FailsWith e (statement input block) (facing body (t :: ts) s) ↔
      Stuck α e (t :: ts) ∨ ∃ c rest s₁, Reads (t :: ts) c rest ∧
        c.act input.depthLimit s = some s₁ ∧ c.opens = true ∧
        FailsWith e block (facing body rest s₁) := by
  rw [statement, failsWith_of_ok (kind_facing hin hs s)]
  by_cases hk : t.kind = .leftBracket
  · simp only [headKind, hk]
    exact bracketStatement_fails hin he hlegible hs
  · refine iff_of_false (fun h => he ?_) ?_
    · simp only [headKind] at h
      split at h
      · exact (((FailsOnly.port hlegible).bind fun _ => .pure _) e _ h).isSyntax
      · rename_i hbracket
        exact absurd hbracket hk
      · exact (((FailsOnly.edge hlegible _).bind fun _ => .pure _) e _ h).isSyntax
      · exact FailsOnly.skipLine input e _ h
    · rintro (hstuck | ⟨c, rest, s₁, hr, -, ho, -⟩)
      · exact hk (bracket_of_stuck hstuck)
      · exact hk (bracket_of_opens hr ho)

end Reader

end Grammar

end ComponentDiagram
