import ComponentDiagram.Build.Attempt
import ComponentDiagram.Proofs.Grammar.Failing
import ComponentDiagram.Proofs.Numeric.Largest

/-! Which texts are neither read nor refused: those where the first thing wrong is a coordinate that
is too long or too large. -/
namespace ComponentDiagram
namespace Grammar

/-- Clauses that may stand where they do lead to a component whose position cannot be read, at the
start of the tokens or behind the opening brace of a wrapper. -/
inductive Overflows (α : Type) [Scalar α] (limit : Option Nat) (e : Failure) : List Token → Prop
  | plain {ts cs rest} {s : State α} : wrapperType? (afterLines ts) = none →
      ReadsAll (afterLines ts) cs rest → actAll limit cs {} = some s → Stuck α e rest →
      Overflows α limit e ts
  | wrapped {ts o n c rest b inner cs rest' type} {s : State α} :
      afterLines ts = o :: n :: c :: rest → wrapperType? (o :: n :: c :: rest) = some type →
      c.kind = .rightBracket → afterLines rest = b :: inner → b.kind = .leftBrace →
      ReadsAll inner cs rest' → actAll limit cs {} = some s → Stuck α e rest' →
      Overflows α limit e ts

section

variable {α : Type} [Scalar α]

/-- The block fails, or it closes at a brace that stands before the rest: the clauses behind the
brace lead on there. -/
def FailsOrCloses (input : Input) (body : List Token) (e : Failure) (fuel : Nat)
    (ts rest : List Token) (s s' : State α) : Prop :=
  Reader.FailsWith e (Reader.blockTo input fuel) (facing body ts s) ∨
    ∃ t ts' cs s₁,
      Reader.blockTo input fuel (facing body ts s) = .ok () (facing body (t :: ts') s₁) ∧
      t :: ts' <:+ ts ∧ t.kind = .rightBrace ∧ ReadsAll ts' cs rest ∧ s₁.scope.isEmpty = false ∧
      actAll input.depthLimit cs s₁.close = some s' ∧ s₁.scope.length = s.scope.length

/-- A block fails or closes as what is left of it after a step does. -/
theorem FailsOrCloses.of_step {input : Input} {body : List Token} {e : Failure} {fuel fuel' : Nat}
    {ts ts' rest : List Token} {s s₁ s' : State α}
    (h : FailsOrCloses input body e fuel ts' rest s₁ s')
    (hstep : Reader.blockTo input fuel' (facing body ts s) =
      Reader.blockTo input fuel (facing body ts' s₁))
    (hsub : ts' <:+ ts) (hdepth : s₁.scope.length = s.scope.length) :
    FailsOrCloses input body e fuel' ts rest s s' := by
  rcases h with ⟨s₂, hfail⟩ | ⟨t, ts₁, cs, s₂, hok, hsub', hc, hr, hopen, ha, hd⟩
  · exact .inl ⟨s₂, hstep.trans hfail⟩
  · exact .inr ⟨t, ts₁, cs, s₂, hstep.trans hok, hsub'.trans hsub, hc, hr, hopen, ha,
      hd.trans hdepth⟩

end

section

variable {α : Type} [Scalar α] {input : Input} {body : List Token} {last : Token}
  (hin : input.Holds body last) (hlegible : ∀ i, (input.token i).IsLegible) {e : Failure}
  (he : ¬ e.IsSyntax)

include hin hlegible he

/-! ## Blocks -/

/-- Where a block fails, clauses lead to a position that cannot be read. -/
theorem stuck_of_blockTo {fuel : Nat} {ts : List Token} (hs : ts <:+ body) (hf : ts.length < fuel)
    {s : State α} (h : Reader.FailsWith e (Reader.blockTo input fuel) (facing body ts s)) :
    ∃ cs rest s₁, ReadsAll ts cs rest ∧ actAll input.depthLimit cs s = some s₁ ∧
      Stuck α e rest := by
  induction fuel generalizing ts s with
  | zero => exact absurd hf (Nat.not_lt_zero _)
  | succ fuel ih =>
    match ts with
    | [] => exact absurd h (Reader.not_failsWith_of_ok (blockTo_atEnd hin hs (.inl rfl) _ s))
    | t :: ts =>
      have hlen : ts.length < fuel := Nat.lt_of_succ_lt_succ hf
      by_cases hc : t.kind = .rightBrace
      · exact absurd h (Reader.not_failsWith_of_ok (blockTo_atEnd hin hs (.inr hc) _ s))
      by_cases hn : t.kind = .newline
      · rw [Reader.FailsWith, blockTo_newline hin hs hn] at h
        obtain ⟨cs, rest, s₁, hr, ha, hstuck⟩ := ih (suffix_of_cons hs) hlen h
        exact ⟨.newline :: cs, rest, s₁, .cons (.newline hn) hr, ha, hstuck⟩
      rw [Reader.FailsWith, blockTo_statement hin hs hn hc] at h
      rcases Reader.failsWith_bind.mp h with h | ⟨_, s₁, h₁, h⟩
      · rcases (Reader.statement_fails hin he hlegible hs).mp h with
          hstuck | ⟨c, rest, s₁, hr, ha, -, h⟩
        · exact ⟨[], t :: ts, s, .nil, rfl, hstuck⟩
        · have hlt := hr.length_lt
          simp only [List.length_cons] at hlt
          obtain ⟨cs, rest', s₂, hr', ha', hstuck⟩ := ih (hr.suffix_of hs) (by omega) h
          refine ⟨c :: cs, rest', s₂, .cons hr hr', ?_, hstuck⟩
          rw [actAll_cons, ha]
          exact ha'
      · obtain ⟨cs, rest, s₂, hr, ha, rfl, hle, -⟩ :=
          statement_run hin (blockTo_inside hin fuel) (blockTo_sound hin fuel) hs hlen hn hc h₁
        obtain ⟨ds, rest', s₃, hr', ha', hstuck⟩ := ih (hr.suffix.trans hs) (by omega) h
        refine ⟨cs ++ ds, rest', s₃, hr.append hr', ?_, hstuck⟩
        rw [actAll_append, ha]
        exact ha'

/-- Where clauses lead to a position that cannot be read, a block fails, unless one of them closes
it before. -/
theorem blockTo_of_stuck {fuel : Nat} {ts rest : List Token} {cs : List (Clause α)}
    (hs : ts <:+ body) (hf : ts.length < fuel) (hr : ReadsAll ts cs rest) (hstuck : Stuck α e rest)
    {s s' : State α} (ha : actAll input.depthLimit cs s = some s') :
    FailsOrCloses input body e fuel ts rest s s' := by
  induction fuel generalizing ts cs s with
  | zero => exact absurd hf (Nat.not_lt_zero _)
  | succ fuel ih =>
    cases hr with
    | nil =>
      obtain ⟨o, i, c, rest, hts, hb, -, -⟩ := id hstuck
      subst hts
      have ho := hb.opening
      left
      rw [Reader.FailsWith, blockTo_statement hin hs (by simp [ho]) (by simp [ho])]
      exact Reader.failsWith_bind.mpr
        (.inl ((Reader.statement_fails hin he hlegible hs).mpr (.inl hstuck)))
    | @cons _ c ts' cs _ hc hrest =>
      obtain ⟨t, tail, rfl, -⟩ := hc.suffix
      have hs' := hc.suffix_of hs
      have hsub := hc.suffix_of List.suffix_rfl
      have hlt := hc.length_lt
      simp only [List.length_cons] at hf hlt
      by_cases hb : t.kind = .rightBrace
      · obtain ⟨rfl, rfl⟩ := hc.of_rightBrace hb
        rw [actAll_cons, Clause.act] at ha
        cases hopen : s.scope.isEmpty with
        | true => simp [hopen] at ha
        | false =>
          rw [hopen] at ha
          exact .inr ⟨t, _, cs, s, blockTo_atEnd hin hs (.inr hb) .., List.suffix_rfl, hb, hrest,
            hopen, ha, rfl⟩
      by_cases hn : t.kind = .newline
      · obtain ⟨rfl, rfl⟩ := hc.of_newline hn
        exact (ih hs' (by omega) hrest ha).of_step (blockTo_newline hin hs hn fuel s) hsub rfl
      rw [actAll_cons] at ha
      obtain ⟨s₂, hact, ha⟩ := Option.bind_eq_some_iff.mp ha
      have hdepth := hc.depth hb hact
      have hblock := blockTo_statement hin hs hn hb fuel s
      cases ho : c.opens with
      | false =>
        have hst := Reader.statement_flat hin (blockTo_inside hin fuel) hs hn hb hc hact ho
        rw [ho, Bool.toNat_false, Nat.add_zero] at hdepth
        exact (ih hs' (by omega) hrest ha).of_step (hblock.trans (Reader.bind_of_ok hst)) hsub hdepth
      | true =>
        rw [ho, Bool.toNat_true] at hdepth
        rcases ih hs' (by omega) hrest ha with
          hfail | ⟨t', ts₁, cs', s₁, hok, hsub₁, hb', hr', hopen, ha', hd⟩
        · left
          rw [Reader.FailsWith, hblock]
          exact Reader.failsWith_bind.mpr (.inl ((Reader.statement_fails hin he hlegible hs).mpr
            (.inr ⟨c, ts', s₂, hc, hact, ho, hfail⟩)))
        · -- the block that the clause opens is closed; what fails lies behind it
          have hs₁ := hsub₁.trans hs'
          have hlen := hsub₁.length_le
          simp only [List.length_cons] at hlen
          have hst := Reader.statement_closed hin (blockTo_inside hin fuel) hs hn hb hc hact ho
            hs₁ hb' hok
          have hclose := close_depth s₁
          exact (ih (suffix_of_cons hs₁) (by omega) hr' ha').of_step
            (hblock.trans (Reader.bind_of_ok hst)) ((suffix_of_cons hsub₁).trans hsub) (by omega)

theorem block_fails {ts : List Token} (hs : ts <:+ body) {s : State α} (hd : s.scope = []) :
    Reader.FailsWith e (Reader.block input) (facing body ts s) ↔
      ∃ cs rest s₁, ReadsAll ts cs rest ∧ actAll input.depthLimit cs s = some s₁ ∧
        Stuck α e rest := by
  have hlen := hs.length_le
  have hf : ts.length < input.tokens.size + 1 := by
    rw [hin.tokens]
    simp only [List.size_toArray, List.length_append, List.length_singleton]
    omega
  constructor
  · exact stuck_of_blockTo hin hlegible he hs hf
  · rintro ⟨cs, rest, s₁, hr, ha, hstuck⟩
    refine (blockTo_of_stuck hin hlegible he hs hf hr hstuck ha).resolve_right ?_
    -- a brace would close the block itself, and nothing is open there
    rintro ⟨_, _, _, s₂, -, -, -, -, hopen, -, hdepth⟩
    rw [hd] at hdepth
    rw [List.eq_nil_of_length_eq_zero hdepth] at hopen
    cases hopen

/-! ## Documents -/

private theorem wrapped_fails {ts : List Token} (hs : ts <:+ body) {type : DiagramType}
    (ht : wrapperType? ts = some type) :
    Reader.FailsWith e (Reader.wrappedPart input type : Reader α (Document α))
        (facing body ts {}) ↔
      ∃ o n c rest b inner cs rest', ∃ s : State α, ts = o :: n :: c :: rest ∧
        c.kind = .rightBracket ∧ afterLines rest = b :: inner ∧ b.kind = .leftBrace ∧
        ReadsAll inner cs rest' ∧ actAll input.depthLimit cs {} = some s ∧ Stuck α e rest' := by
  rw [Reader.wrappedPart_eq]
  rcases ts with _ | ⟨o, _ | ⟨n, ts⟩⟩
  · cases ht
  · cases ht
  · have hs₁ := suffix_of_cons hs
    have hs₂ := suffix_of_cons hs₁
    rw [Reader.failsWith_of_ok (Reader.advance_facing hin hs _),
      Reader.failsWith_of_ok (Reader.advance_facing hin hs₁ _)]
    constructor
    · intro h
      obtain ⟨c, s₁, h₁, h⟩ := ((Reader.FailsOnly.expect input _ _).failsWith_bind he).mp h
      obtain ⟨rest, rfl, hc, rfl⟩ := (Reader.expect_ok hin (by decide) hs₂).mp h₁
      have hs₃ := afterLines_suffix (suffix_of_cons hs₂)
      rw [Reader.failsWith_of_ok (Reader.skipNewlines_facing hin (suffix_of_cons hs₂) _)] at h
      obtain ⟨b, s₂, h₂, h⟩ := ((Reader.FailsOnly.expect input _ _).failsWith_bind he).mp h
      obtain ⟨inner, hb, hbk, rfl⟩ := (Reader.expect_ok hin (by decide) hs₃).mp h₂
      rw [hb] at hs₃
      rw [Reader.FailsOnly.failsWith_first input (fun _ => .wrapperEnd input type) he,
        block_fails hin hlegible he (suffix_of_cons hs₃) rfl] at h
      obtain ⟨cs, rest', s, hr, ha, hstuck⟩ := h
      exact ⟨o, n, c, rest, b, inner, cs, rest', s, rfl, hc, hb, hbk, hr, ha, hstuck⟩
    · rintro ⟨o', n', c, rest, b, inner, cs, rest', s, hts, hc, hb, hbk, hr, ha, hstuck⟩
      cases hts
      have hs₃ := afterLines_suffix (suffix_of_cons hs₂)
      have hskip := Reader.skipNewlines_facing hin (suffix_of_cons hs₂) ({} : State α)
      rw [hb] at hs₃ hskip
      rw [Reader.failsWith_of_ok (Reader.expect_cons hin (by decide) hs₂ hc _),
        Reader.failsWith_of_ok hskip,
        Reader.failsWith_of_ok (Reader.expect_cons hin (by decide) hs₃ hbk _),
        Reader.FailsOnly.failsWith_first input (fun _ => .wrapperEnd input type) he,
        block_fails hin hlegible he (suffix_of_cons hs₃) rfl]
      exact ⟨cs, rest', s, hr, ha, hstuck⟩

theorem document_fails :
    Reader.FailsWith e (Reader.document input : Reader α (Document α)) {} ↔
      Overflows α input.depthLimit e body := by
  have hs : afterLines body <:+ body := afterLines_suffix (List.suffix_refl body)
  have hskip := Reader.skipNewlines_facing hin (List.suffix_refl body) ({} : State α)
  rw [show facing body body ({} : State α) = {} by simp [facing]] at hskip
  rw [Reader.document, Reader.failsWith_of_ok hskip,
    Reader.failsWith_of_ok (wrapper?_facing hin hs _)]
  cases ht : wrapperType? (afterLines body) with
  | none =>
    refine (Reader.FailsOnly.failsWith_first input
      (fun _ => Reader.FailsOnly.ending input (· == .rightBrace) _ _) he).trans
      ((block_fails hin hlegible he hs rfl).trans ?_)
    constructor
    · rintro ⟨cs, rest, s, hr, ha, hstuck⟩
      exact .plain ht hr ha hstuck
    · intro h
      cases h with
      | plain _ hr ha hstuck => exact ⟨_, _, _, hr, ha, hstuck⟩
      | wrapped hts ht' => rw [← hts, ht] at ht'; cases ht'
  | some type =>
    refine (wrapped_fails hin hlegible he hs ht).trans ?_
    constructor
    · rintro ⟨o, n, c, rest, b, inner, cs, rest', s, hts, hc, hb, hbk, hr, ha, hstuck⟩
      exact .wrapped hts (hts ▸ ht) hc hb hbk hr ha hstuck
    · intro h
      cases h with
      | plain ht' => rw [ht] at ht'; cases ht'
      | wrapped hts _ hc hb hbk hr ha hstuck =>
        exact ⟨_, _, _, _, _, _, _, _, _, hts, hc, hb, hbk, hr, ha, hstuck⟩

end

/-! ## Texts -/

open Source

variable {α : Type} [Scalar α]

/-- A text fails with anything but a syntax error exactly where a position cannot be read. -/
theorem parse_fails {text : String} {file : Option Path} {e : Failure} (he : ¬ e.IsSyntax) :
    (parse text file : Except Failure (Document α)) = .error e ↔
      Overflows α (some 50) e (solidTokens text) := by
  obtain ⟨last, hin⟩ := ofText_holds text file
  have hlegible := legible_token hin (legible_solid text)
  exact parse_error.trans (document_fails hin hlegible he)

theorem coordinateOf_cases {text : String} {e : Failure}
    (hd : ∃ n, Text.signedDigits? text.toList = some n)
    (h : (Reader.coordinateOf text : Except Failure α) = .error e) :
    e = .coordinateTooLong ∨ e = .coordinateTooLarge := by
  obtain ⟨⟨negative, digits⟩, hd⟩ := hd
  rw [Reader.coordinateOf, hd] at h
  dsimp only at h
  split at h
  · cases h
    exact .inl rfl
  · split at h <;> cases h
    exact .inr rfl

/-- One of the numbers cannot be read. -/
theorem Overflows.number {limit : Option Nat} {ts : List Token} {e : Failure}
    (h : Overflows α limit e ts) : ∃ t ∈ ts, t.kind = .number ∧
      (Reader.coordinateOf t.text : Except Failure α) = .error e := by
  have hstuck {rest : List Token} (hs : rest <:+ ts) (h : Stuck α e rest) : ∃ t ∈ ts,
      t.kind = .number ∧ (Reader.coordinateOf t.text : Except Failure α) = .error e := by
    obtain ⟨o, i, c, us, rfl, -, -, hover⟩ := h
    have hsuffix := (List.dropWhile_suffix inHead).trans
      ((List.suffix_append [o, i, c] us).trans hs)
    generalize us.dropWhile inHead = vs at hover hsuffix
    cases hover with
    | across _ hk hx => exact ⟨_, hsuffix.subset (by simp), hk, hx⟩
    | down _ _ _ _ hk hx => exact ⟨_, hsuffix.subset (by simp), hk, hx⟩
  have hlines (us : List Token) : afterLines us <:+ us := List.dropWhile_suffix _
  cases h with
  | plain _ hr _ h => exact hstuck (hr.suffix.trans (hlines _)) h
  | wrapped he _ _ hb _ hr _ h =>
    have hinner := (List.suffix_cons _ _).trans (hb ▸ hlines _)
    have hrest := (List.suffix_append [_, _, _] _).trans (he ▸ hlines ts)
    exact hstuck ((hr.suffix.trans hinner).trans hrest) h

end Grammar

open Grammar Source

/-! ## Attempts -/

variable {α : Type} [Scalar α]

/-- All that comes of a text, or nothing but the error. -/
def Attempt.IsWhole (text : String) (file : Option Path) (attempt : Attempt α) : Prop :=
  (∃ doc, parse text file = .ok doc ∧
    attempt = ⟨Build.diagram doc, some doc, some (Source.tokens text false), none⟩) ∨
  ∃ error, (parse text file : Except Failure (Document α)) = .error (.syntaxError error) ∧
    attempt = ⟨{}, none, none, some error⟩

theorem Attempt.ofText_ok {text : String} {file : Option Path} {attempt : Attempt α} :
    Attempt.ofText text file = .ok attempt ↔ attempt.IsWhole text file := by
  unfold Attempt.ofText Attempt.IsWhole
  generalize (parse text file : Except Failure (Document α)) = read
  constructor
  · intro h
    split at h
    · cases h
      exact .inl ⟨_, rfl, rfl⟩
    · cases h
      exact .inr ⟨_, rfl, rfl⟩
    · cases h
  · rintro (⟨doc, rfl, rfl⟩ | ⟨error, rfl, rfl⟩) <;> rfl

theorem Attempt.ofText_error {text : String} {file : Option Path} {e : Failure} :
    (Attempt.ofText text file : Except Failure (Attempt α)) = .error e ↔
      (parse text file : Except Failure (Document α)) = .error e ∧ ¬ e.IsSyntax := by
  unfold Attempt.ofText
  generalize (parse text file : Except Failure (Document α)) = read
  constructor
  · intro h
    split at h
    · cases h
    · cases h
    · rename_i hsyntax
      cases h
      exact ⟨rfl, fun ⟨error⟩ => hsyntax error rfl⟩
  · rintro ⟨rfl, he⟩
    split
    · rename_i hok
      cases hok
    · rename_i herror
      cases herror
      exact absurd ⟨_⟩ he
    · rename_i herror
      cases herror
      rfl

/-- An attempt is all or nothing, but for a position that cannot be read, which escapes it. -/
theorem attempt_escapes_iff (text : String) (file : Option Path) :
    (∀ attempt : Attempt α, Attempt.ofText text file = .ok attempt ↔
      attempt.IsWhole text file) ∧
    ∀ e, (Attempt.ofText text file : Except Failure (Attempt α)) = .error e ↔
      Overflows α (some 50) e (solidTokens text) ∧
        (e = .coordinateTooLong ∨ e = .coordinateTooLarge) := by
  refine ⟨fun attempt => Attempt.ofText_ok, fun e => Attempt.ofText_error.trans ?_⟩
  constructor
  · rintro ⟨hparse, hsyntax⟩
    have hover := (parse_fails hsyntax).mp hparse
    obtain ⟨t, ht, hk, hx⟩ := hover.number
    exact ⟨hover, coordinateOf_cases ((legible_solid text t ht).number hk) hx⟩
  · rintro ⟨hover, hcases⟩
    have hsyntax : ¬ e.IsSyntax := by
      rcases hcases with rfl | rfl <;> exact fun hs => nomatch hs
    exact ⟨(parse_fails hsyntax).mpr hover, hsyntax⟩

theorem Attempt.not_isWhole {text : String} {file : Option Path} {e : Failure}
    (h : (Attempt.ofText text file : Except Failure (Attempt α)) = .error e) (attempt : Attempt α) :
    ¬ attempt.IsWhole text file := by
  rw [← Attempt.ofText_ok, h]
  exact fun hok => nomatch hok

/-- A component at an integer. -/
def placedText (n : Int) : String := "[a] @ " ++ toString n ++ ",0\n"

private theorem cut_placedText (n : Int) : ∃ more, cut (placedText n).toList =
    lexemeToken .leftBracket ['['] :: lexemeToken .identifier ['a'] ::
      lexemeToken .rightBracket [']'] :: lexemeToken .atSign ['@'] ::
      lexemeToken .number (toString n).toList :: more := by
  have htext : (placedText n).toList =
      ['[', 'a', ']', ' ', '@'] ++ ' ' :: ((toString n).toList ++ [',', '0', '\n']) := by
    simp [placedText]
  have hfront : cut ['[', 'a', ']', ' ', '@'] = [lexemeToken .leftBracket ['['],
      lexemeToken .identifier ['a'], lexemeToken .rightBracket [']'],
      lexemeToken .atSign ['@']] := by decide
  have hcomma : Apart [',', '0', '\n'] := boundary_of_delimiter rfl
  refine ⟨cut [',', '0', '\n'], ?_⟩
  rw [htext, cut_append _ (apart_space _), cut_space, (spells_toString n).cut_append hcomma, hfront]
  rfl

theorem overflows_placedText {n : Int} {e : Failure}
    (h : (Reader.coordinateOf (toString n) : Except Failure α) = .error e) (limit : Option Nat) :
    Overflows α limit e (solidTokens (placedText n)) := by
  obtain ⟨more, hcut⟩ := cut_placedText n
  have hmap : (solidTokens (placedText n)).map Token.unplaced = _ := hcut
  generalize solidTokens (placedText n) = ts at hmap ⊢
  obtain ⟨o, ts, rfl, ho, hmap⟩ := List.map_eq_cons_iff.mp hmap
  obtain ⟨i, ts, rfl, hi, hmap⟩ := List.map_eq_cons_iff.mp hmap
  obtain ⟨c, ts, rfl, hc, hmap⟩ := List.map_eq_cons_iff.mp hmap
  obtain ⟨sign, ts, rfl, hsign, hmap⟩ := List.map_eq_cons_iff.mp hmap
  obtain ⟨across, rest, rfl, hacross, -⟩ := List.map_eq_cons_iff.mp hmap
  have hb : Brackets o i c :=
    ⟨congrArg Token.kind ho, congrArg Token.kind hi, congrArg Token.kind hc⟩
  have hsign : sign.kind = .atSign := congrArg Token.kind hsign
  have hname : i.text = "a" := congrArg Token.text hi
  have htext : across.text = toString n := by
    have ht := congrArg Token.text hacross
    rwa [lexemeToken, String.ofList_toList] at ht
  have hlines : afterLines (o :: i :: c :: sign :: across :: rest) =
      o :: i :: c :: sign :: across :: rest := by
    rw [afterLines, List.dropWhile_cons_of_neg (by simp [hb.opening])]
  have hdrop : (sign :: across :: rest).dropWhile inHead = sign :: across :: rest := by
    rw [List.dropWhile_cons_of_neg (by simp [inHead, hsign])]
  have htype : wrapperType? (o :: i :: c :: sign :: across :: rest) = none := by
    rw [wrapperType?, hname, if_pos (by simp [hb.opening, hb.inner])]
    decide
  refine .plain (s := {}) (by rw [hlines, htype]) .nil rfl ⟨o, i, c, _, hlines, hb, ?_, ?_⟩
  · simp [startsEdge, hsign]
  · rw [hdrop]
    exact .across hsign (congrArg Token.kind hacross) (htext ▸ h)

/-- A number of 310 digits is beyond all doubles: it is no answer, and no syntax error. -/
theorem attempt_escapes_power :
    (Attempt.ofText (placedText (10 ^ 309)) none : Except Failure (Attempt Float)) =
      .error .coordinateTooLarge ∧
    ∀ attempt : Attempt Float, ¬ attempt.IsWhole (placedText (10 ^ 309)) none := by
  have hread : (Reader.coordinateOf (toString (10 ^ 309 : Int)) : Except Failure Float) =
      .error .coordinateTooLarge :=
    (coordinateOf_error (Text.signedDigits?_toString _)).mpr
      (.inr ⟨by decide +kernel, by decide +kernel, rfl⟩)
  have hsyntax : ¬ Failure.coordinateTooLarge.IsSyntax := fun hs => nomatch hs
  have herror : (Attempt.ofText (placedText (10 ^ 309)) none : Except Failure (Attempt Float)) =
      .error .coordinateTooLarge :=
    Attempt.ofText_error.mpr ⟨(parse_fails hsyntax).mpr (overflows_placedText hread _), hsyntax⟩
  exact ⟨herror, Attempt.not_isWhole herror⟩

end ComponentDiagram
