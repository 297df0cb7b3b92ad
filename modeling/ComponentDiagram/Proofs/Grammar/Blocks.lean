import ComponentDiagram.Proofs.Grammar.Statements

/-! A block is read exactly if its tokens are clauses from end to end that may stand where they do. -/
namespace ComponentDiagram.Grammar

namespace Reader

variable {α : Type} [Scalar α] {input : Input} {body : List Token} {last : Token}
  (hin : input.Holds body last)

omit [Scalar α] in
private theorem discard_ok {β : Type} {x : Reader α β} {s s' : State α} :
    (x >>= fun _ => pure ()) s = .ok () s' ↔ ∃ b, x s = .ok b s' := by
  rw [bind_ok]
  constructor
  · rintro ⟨b, s₁, h, he⟩
    cases he
    exact ⟨b, h⟩
  · rintro ⟨b, h⟩
    exact ⟨b, s', h, rfl⟩

include hin

private theorem bracketStatement_ok {block : Reader α Unit} (hblock : Inside block body)
    {t : Token} {ts : List Token} (hs : t :: ts <:+ body) (ht : t.kind = .leftBracket)
    {s s' : State α} : bracketStatement input block (facing body (t :: ts) s) = .ok () s' ↔
      ∃ c rest s₁, Reads (t :: ts) c rest ∧ c.act input.depthLimit s = some s₁ ∧
        Finished block body c.opens rest s₁ s' := by
  rw [bracketStatement, bind_of_ok (get_run _)]
  refine (brackets_ok hin hs (fun _ _ => expectKind_ok hin (by decide) hs)).trans ?_
  constructor
  · rintro ⟨o, i, c, rest, he, hb, h⟩
    cases he
    have hs' := (List.suffix_append [t, i, c] rest).trans hs
    rw [bind_of_ok (atEdge_facing hin hs' s)] at h
    cases hedge : startsEdge rest with
    | true =>
      rw [hedge, if_pos rfl] at h
      obtain ⟨iface, source, drawn, kind, target, rest', he, hk, rfl⟩ :=
        (edge_ok hin hs').mp (discard_ok.mp h)
      exact ⟨_, _, _, .namedEdge hb he hk, rfl, rfl⟩
    | false =>
      rw [hedge, if_neg Bool.false_ne_true, bind_of_ok (modify_run _ _)] at h
      obtain ⟨_, _, _, _, place, rest', he, -, hp, s₁, hact, hfin⟩ :=
        (component_ok hin hblock hs (s := s)).mp (discard_ok.mp h)
      cases he
      exact ⟨_, _, s₁, .component hb hedge hp, hact, hfin⟩
  · rintro ⟨c, rest, s₁, hr, hact, hfin⟩
    cases hr with
    | newline hk => simp [ht] at hk
    | closing hk => simp [ht] at hk
    | skipped hk => simp [ht, isStray] at hk
    | port hk => simp [ht] at hk
    | edge he => have := he.head; simp [headKind, ht] at this
    | @namedEdge _ i c ts iface source drawn kind target rest hb he hk =>
      have hs' := (List.suffix_append [t, i, c] ts).trans hs
      refine ⟨t, i, c, ts, rfl, hb, ?_⟩
      rw [bind_of_ok (atEdge_facing hin hs' s), he.startsEdge, if_pos rfl]
      refine discard_ok.mpr
        ((edge_ok hin hs').mpr ⟨iface, source, drawn, kind, target, rest, he, hk, ?_⟩)
      cases hact
      exact hfin
    | @component _ i c ts place rest hb hedge hp =>
      have hs' := (List.suffix_append [t, i, c] ts).trans hs
      refine ⟨t, i, c, ts, rfl, hb, ?_⟩
      rw [bind_of_ok (atEdge_facing hin hs' s), hedge, if_neg Bool.false_ne_true,
        bind_of_ok (modify_run _ _)]
      exact discard_ok.mpr ((component_ok hin hblock hs (s := s)).mpr
        ⟨t, i, c, ts, place, rest, rfl, hb, hp, s₁, hact, hfin⟩)

private theorem portStatement_ok {block : Reader α Unit} {t : Token} {ts : List Token}
    (hs : t :: ts <:+ body) (ht : t.kind = .portWord) {s s' : State α} :
    (∃ u, port input (facing body (t :: ts) s) = .ok u s') ↔
      ∃ c rest s₁, Reads (t :: ts) c rest ∧ c.act input.depthLimit s = some s₁ ∧
        Finished block body c.opens rest s₁ s' := by
  rw [port_ok hin hs]
  constructor
  · rintro ⟨p, o, i, c, word, o', i', c', side, rest, target, side', he, hp, hb, hw, hb', hi', ht,
      hside, s₁, hact, rfl⟩
    rw [he]
    exact ⟨_, _, s₁, .port hp hb hw hb' hi' ht hside, hact, rfl⟩
  · rintro ⟨c, rest, s₁, hr, hact, hfin⟩
    cases hr with
    | newline hk => simp [ht] at hk
    | closing hk => simp [ht] at hk
    | skipped hk => simp [ht, isStray] at hk
    | edge he => have := he.head; simp [headKind, ht] at this
    | namedEdge hb => simp [hb.opening] at ht
    | component hb => simp [hb.opening] at ht
    | port hp hb hw hb' hi' ht hside =>
      exact ⟨_, _, _, _, _, _, _, _, _, _, _, _, rfl, hp, hb, hw, hb', hi', ht, hside, s₁, hact,
        hfin⟩

private theorem edgeStatement_ok {block : Reader α Unit} {t : Token} {ts : List Token}
    (hs : t :: ts <:+ body) (ht : t.kind = .identifier) {s s' : State α} :
    (∃ u, edge input none (facing body (t :: ts) s) = .ok u s') ↔
      ∃ c rest s₁, Reads (t :: ts) c rest ∧ c.act input.depthLimit s = some s₁ ∧
        Finished block body c.opens rest s₁ s' := by
  rw [edge_ok hin hs]
  constructor
  · rintro ⟨iface, source, drawn, kind, target, rest, he, hk, rfl⟩
    exact ⟨_, _, _, .edge he hk, rfl, rfl⟩
  · rintro ⟨c, rest, s₁, hr, hact, hfin⟩
    cases hr with
    | newline hk => simp [ht] at hk
    | closing hk => simp [ht] at hk
    | skipped hk => simp [ht, isStray] at hk
    | port hp => simp [ht] at hp
    | namedEdge hb => simp [hb.opening] at ht
    | component hb => simp [hb.opening] at ht
    | edge he hk =>
      cases hact
      exact ⟨_, _, _, _, _, _, he, hk, hfin⟩

private theorem strayStatement_ok {block : Reader α Unit} {t : Token} {ts : List Token}
    (hs : t :: ts <:+ body) (ht : isStray t.kind = true) {s s' : State α} :
    skipLine input (facing body (t :: ts) s) = .ok () s' ↔
      ∃ c rest s₁, Reads (t :: ts) c rest ∧ c.act input.depthLimit s = some s₁ ∧
        Finished block body c.opens rest s₁ s' := by
  rw [skipLine_facing hin hs s]
  constructor
  · intro h
    cases h
    exact ⟨_, _, _, .skipped ht, rfl, rfl⟩
  · rintro ⟨c, rest, s₁, hr, hact, hfin⟩
    cases hr with
    | newline hk => simp [hk, isStray] at ht
    | closing hk => simp [hk, isStray] at ht
    | port hp => simp [hp, isStray] at ht
    | namedEdge hb => simp [hb.opening, isStray] at ht
    | component hb => simp [hb.opening, isStray] at ht
    | edge he =>
      have hk : t.kind = .identifier := he.head
      simp [hk, isStray] at ht
    | skipped =>
      cases hact
      exact congrArg _ hfin.symm

/-- A statement succeeds exactly where a clause stands, and then reads the block it opens. -/
theorem statement_ok {block : Reader α Unit} (hblock : Inside block body) {t : Token}
    {ts : List Token} (hs : t :: ts <:+ body) (hn : t.kind ≠ .newline) (hc : t.kind ≠ .rightBrace)
    {s s' : State α} : statement input block (facing body (t :: ts) s) = .ok () s' ↔
      ∃ c rest s₁, Reads (t :: ts) c rest ∧ c.act input.depthLimit s = some s₁ ∧
        Finished block body c.opens rest s₁ s' := by
  rw [statement, bind_of_ok (kind_facing hin hs s)]
  by_cases hport : t.kind = .portWord
  · simp only [headKind, hport]
    exact discard_ok.trans (portStatement_ok hin hs hport)
  by_cases hbracket : t.kind = .leftBracket
  · simp only [headKind, hbracket]
    exact bracketStatement_ok hin hblock hs hbracket
  by_cases hid : t.kind = .identifier
  · simp only [headKind, hid]
    exact discard_ok.trans (edgeStatement_ok hin hs hid)
  · have hstray : isStray t.kind = true := by simp [isStray, hn, hc, hport, hbracket, hid]
    simp only [headKind]
    exact strayStatement_ok hin hs hstray

/-- A clause that opens no block is a statement. -/
theorem statement_flat {block : Reader α Unit} (hblock : Inside block body) {t : Token}
    {ts rest : List Token} (hs : t :: ts <:+ body) (hn : t.kind ≠ .newline)
    (hc : t.kind ≠ .rightBrace) {c : Clause α} (hr : Reads (t :: ts) c rest) {s s₁ : State α}
    (hact : c.act input.depthLimit s = some s₁) (ho : c.opens = false) :
    statement input block (facing body (t :: ts) s) = .ok () (facing body rest s₁) := by
  refine (statement_ok hin hblock hs hn hc).mpr ⟨c, rest, s₁, hr, hact, ?_⟩
  rw [ho]
  rfl

/-- A clause that opens a block is a statement, together with the block and the brace behind it. -/
theorem statement_closed {block : Reader α Unit} (hblock : Inside block body) {t t' : Token}
    {ts rest rest' : List Token} (hs : t :: ts <:+ body) (hn : t.kind ≠ .newline)
    (hc : t.kind ≠ .rightBrace) {c : Clause α} (hr : Reads (t :: ts) c rest) {s s₁ s₂ : State α}
    (hact : c.act input.depthLimit s = some s₁) (ho : c.opens = true) (hs' : t' :: rest' <:+ body)
    (ht' : t'.kind = .rightBrace)
    (hread : block (facing body rest s₁) = .ok () (facing body (t' :: rest') s₂)) :
    statement input block (facing body (t :: ts) s) = .ok () (facing body rest' s₂.close) := by
  refine (statement_ok hin hblock hs hn hc).mpr ⟨c, rest, s₁, hr, hact, ?_⟩
  rw [ho]
  exact ⟨t', rest', s₂, hs', ht', hread, rfl⟩

end Reader

/-! ## How deep a clause leads -/

section

variable {α : Type}

private theorem addToOpen?_length {id : String} {port : Port α} {frames frames' : List (Frame α)}
    (h : addToOpen? id port frames = some frames') : frames'.length = frames.length := by
  induction frames generalizing frames' with
  | nil => cases h
  | cons frame outer ih =>
    rw [addToOpen?] at h
    split at h
    · cases h
      rfl
    · obtain ⟨outer', ho, rfl⟩ := Option.map_eq_some_iff.mp h
      rw [List.length_cons, List.length_cons, ih ho]

private theorem addInside?_length {id : String} {port : Port α} {frames frames' : List (Frame α)}
    (h : addInside? id port frames = some frames') : frames'.length = frames.length := by
  induction frames generalizing frames' with
  | nil => cases h
  | cons frame inner ih =>
    rw [addInside?] at h
    split at h
    · split at h
      · cases h
        rfl
      · obtain ⟨inner', hi, rfl⟩ := Option.map_eq_some_iff.mp h
        rw [List.length_cons, List.length_cons, ih hi]
    · cases h

theorem addPort?_depth {s s' : State α} {id : String} {port : Port α}
    (h : s.addPort? id port = some s') : s'.scope.length = s.scope.length := by
  unfold State.addPort? at h
  split at h
  · cases h
  · split at h
    · rename_i ho
      cases h
      exact addToOpen?_length ho
    · split at h
      · cases h
        rfl
      · obtain ⟨frames, hf, rfl⟩ := Option.map_eq_some_iff.mp h
        simpa using addInside?_length hf

theorem attach_depth (s : State α) (t : ComponentTree α) :
    (s.attach t).scope.length = s.scope.length := by
  unfold State.attach
  split
  · rename_i h
    simp [h]
  · rfl

theorem close_depth (s : State α) : s.close.scope.length = s.scope.length - 1 := by
  unfold State.close
  split
  · rename_i h
    simp only
    split
    · rw [attach_depth]
      simp [h]
    · simp [h]
  · rename_i h
    simp [h]

theorem addInner_depth (s : State α) (port : Port α) :
    (s.addInner port).scope.length = s.scope.length := by
  unfold State.addInner
  split
  · rename_i h
    simp [h]
  · rfl

/-- A clause leads one level down, one level up, or stays where it is. -/
theorem act_depth {limit : Option Nat} {c : Clause α} {s s' : State α}
    (h : c.act limit s = some s') :
    match c with
    | .closing => s'.scope.length + 1 = s.scope.length
    | _ => s'.scope.length = s.scope.length + c.opens.toNat := by
  cases c with
  | newline => cases h; rfl
  | skipped => cases h; rfl
  | edge => cases h; rfl
  | closing =>
    simp only [Clause.act] at h
    cases hs : s.scope with
    | nil => simp [hs] at h
    | cons frame outer =>
      rw [if_neg (by simp [hs])] at h
      cases h
      simp [close_depth, hs]
  | component opening id label place opens =>
    cases h
    cases opens with
    | true =>
      simp only [if_true, State.enter, List.length_cons, Clause.opens, Bool.toNat_true]
      split <;> rfl
    | false =>
      simp only [Bool.false_eq_true, if_false, Clause.opens, Bool.toNat_false]
      split
      · rw [attach_depth]
        rfl
      · rfl
  | port opening id target side label =>
    cases target with
    | inside connector =>
      simp only [Clause.act] at h
      split at h
      · cases h
      · cases h
        exact addInner_depth ..
    | on node =>
      cases h
      simp only [Clause.opens, Bool.toNat_false]
      cases hp : s.addPort? node { id, side, label } with
      | none => rfl
      | some s₁ => exact addPort?_depth hp

end

/-! ## Blocks -/

section

variable {α : Type}

theorem facing_inj {body ts us : List Token} (hs : ts <:+ body) (hu : us <:+ body) {s s' : State α}
    (h : facing body ts s = facing body us s') :
    ts = us ∧ ∀ vs, facing body vs s = facing body vs s' := by
  have hindex := congrArg State.index h
  have hlen := hs.length_le
  have hlen' := hu.length_le
  simp only [facing] at hindex
  have hts : ts = us := by
    rw [List.suffix_iff_eq_drop.mp hs, List.suffix_iff_eq_drop.mp hu, hindex]
  refine ⟨hts, fun vs => ?_⟩
  rw [← facing_facing body vs ts, h, facing_facing]

theorem finished_facing {body : List Token} {block : Reader α Unit} {opens : Bool} {ts : List Token}
    {s s' : State α}
    (hs : ts <:+ body) (h : Reader.Finished block body opens ts s s') :
    ∃ rest s₁, rest <:+ body ∧ s' = facing body rest s₁ := by
  unfold Reader.Finished at h
  split at h
  · obtain ⟨t, rest, s₂, hr, -, -, rfl⟩ := h
    exact ⟨rest, _, suffix_of_cons hr, rfl⟩
  · exact ⟨ts, s, hs, h⟩

variable [Scalar α] {input : Input} {body : List Token} {last : Token}
  (hin : input.Holds body last)

theorem Reads.suffix_of {ts rest : List Token} {c : Clause α} (hs : ts <:+ body)
    (h : Reads ts c rest) : rest <:+ body := by
  obtain ⟨t, tail, rfl, hr⟩ := h.suffix
  exact hr.trans (suffix_of_cons hs)

theorem Reads.length_lt {ts rest : List Token} {c : Clause α} (h : Reads ts c rest) :
    rest.length < ts.length := by
  obtain ⟨t, tail, rfl, hr⟩ := h.suffix
  exact Nat.lt_succ_of_le hr.length_le

theorem Reads.of_newline {t : Token} {ts rest : List Token} {c : Clause α}
    (h : Reads (t :: ts) c rest) (ht : t.kind = .newline) : c = .newline ∧ rest = ts := by
  cases h with
  | newline => exact ⟨rfl, rfl⟩
  | closing hk => simp [ht] at hk
  | skipped hk => simp [ht, isStray] at hk
  | port hk => simp [ht] at hk
  | edge he => have := he.head; simp [headKind, ht] at this
  | namedEdge hb => have := hb.opening; simp [ht] at this
  | component hb => have := hb.opening; simp [ht] at this

theorem Reads.of_rightBrace {t : Token} {ts rest : List Token} {c : Clause α}
    (h : Reads (t :: ts) c rest) (ht : t.kind = .rightBrace) : c = .closing ∧ rest = ts := by
  cases h with
  | newline hk => simp [ht] at hk
  | closing => exact ⟨rfl, rfl⟩
  | skipped hk => simp [ht, isStray] at hk
  | port hk => simp [ht] at hk
  | edge he => have := he.head; simp [headKind, ht] at this
  | namedEdge hb => have := hb.opening; simp [ht] at this
  | component hb => have := hb.opening; simp [ht] at this

theorem Reads.depth {t : Token} {ts rest : List Token} {c : Clause α} {limit : Option Nat}
    {s s' : State α} (h : Reads (t :: ts) c rest) (ht : t.kind ≠ .rightBrace)
    (ha : c.act limit s = some s') : s'.scope.length = s.scope.length + c.opens.toNat := by
  have hdepth := act_depth ha
  cases c with
  | closing => cases h with | closing hk => exact absurd hk ht
  | _ => exact hdepth

/-- No block starts at the end of the input, nor at a closing brace. -/
def AtEnd (ts : List Token) : Prop := ts = [] ∨ headKind ts = .rightBrace

include hin

theorem blockTo_atEnd {ts : List Token} (hs : ts <:+ body) (he : AtEnd ts) (fuel : Nat)
    (s : State α) : Reader.blockTo input fuel (facing body ts s) = .ok () (facing body ts s) := by
  cases fuel with
  | zero => rfl
  | succ fuel =>
    rw [Reader.blockTo, Reader.bind_of_ok (Reader.kind_facing hin hs s)]
    rcases he with rfl | he
    · rfl
    · simp only [he, Reader.pure_run]

theorem blockTo_newline {t : Token} {ts : List Token} (hs : t :: ts <:+ body)
    (ht : t.kind = .newline) (fuel : Nat) (s : State α) :
    Reader.blockTo input (fuel + 1) (facing body (t :: ts) s) =
      Reader.blockTo input fuel (facing body ts s) := by
  rw [Reader.blockTo, Reader.bind_of_ok (Reader.kind_facing hin hs s)]
  simp only [headKind, ht]
  exact Reader.bind_of_ok (Reader.advance_facing hin hs s)

theorem blockTo_statement {t : Token} {ts : List Token} (hs : t :: ts <:+ body)
    (hn : t.kind ≠ .newline) (hc : t.kind ≠ .rightBrace) (fuel : Nat) (s : State α) :
    Reader.blockTo input (fuel + 1) (facing body (t :: ts) s) =
      (Reader.statement input (Reader.blockTo input fuel) >>= fun _ =>
        Reader.blockTo input fuel) (facing body (t :: ts) s) := by
  have he := ne_endOfInput_of_suffix hin hs
  rw [Reader.blockTo, Reader.bind_of_ok (Reader.kind_facing hin hs s)]
  simp only [headKind]

theorem blockTo_inside (fuel : Nat) :
    Reader.Inside (Reader.blockTo (α := α) input fuel) body := by
  induction fuel with
  | zero =>
    intro ts s s' hs h
    cases h
    exact ⟨ts, s, hs, rfl⟩
  | succ fuel ih =>
    intro ts s s' hs h
    match ts with
    | [] =>
      rw [blockTo_atEnd hin hs (.inl rfl)] at h
      cases h
      exact ⟨[], s, hs, rfl⟩
    | t :: ts =>
      by_cases hc : t.kind = .rightBrace
      · rw [blockTo_atEnd hin hs (.inr hc)] at h
        cases h
        exact ⟨t :: ts, s, hs, rfl⟩
      by_cases hn : t.kind = .newline
      · rw [blockTo_newline hin hs hn] at h
        exact ih ts s s' (suffix_of_cons hs) h
      · rw [blockTo_statement hin hs hn hc, Reader.bind_ok] at h
        obtain ⟨_, s₁, h₁, h⟩ := h
        obtain ⟨c, rest, s₂, hr, -, hfin⟩ := (Reader.statement_ok hin ih hs hn hc).mp h₁
        obtain ⟨rest', s₃, hs', rfl⟩ := finished_facing (hr.suffix_of hs) hfin
        exact ih rest' s₃ s' hs' h

/-- What a block reads, with fewer tokens left than a bound, is clauses from end to end, and it leaves
as many components open as it found. -/
def RunsBelow (block : Reader α Unit) (input : Input) (body : List Token) (bound : Nat) : Prop :=
  ∀ ts s s', ts <:+ body → ts.length < bound → block (facing body ts s) = .ok () s' →
    ∃ cs rest s₁, ReadsAll ts cs rest ∧ actAll input.depthLimit cs s = some s₁ ∧
      s' = facing body rest s₁ ∧ AtEnd rest ∧ s₁.scope.length = s.scope.length

/-- The block ends where clauses lead on to the rest: there are none, or a brace is the first. -/
def StopsBefore (input : Input) (body : List Token) (fuel : Nat) (ts rest : List Token)
    (s s' : State α) : Prop :=
  ∃ cs us s₁, Reader.blockTo input fuel (facing body ts s) = .ok () (facing body us s₁) ∧
    us <:+ ts ∧ ReadsAll us cs rest ∧ actAll input.depthLimit cs s₁ = some s' ∧
    s₁.scope.length = s.scope.length ∧ (cs = [] ∨ headKind us = .rightBrace)

/-- A statement reads a clause, and with a clause that opens a block all clauses up to its end. -/
theorem statement_run {block : Reader α Unit} {bound : Nat} (hinside : Reader.Inside block body)
    (hruns : RunsBelow block input body bound) {t : Token} {ts : List Token}
    (hs : t :: ts <:+ body) (hf : ts.length < bound) (hn : t.kind ≠ .newline)
    (hc : t.kind ≠ .rightBrace) {s s' : State α}
    (h : Reader.statement input block (facing body (t :: ts) s) = .ok () s') :
    ∃ cs rest s₁, ReadsAll (t :: ts) cs rest ∧ actAll input.depthLimit cs s = some s₁ ∧
      s' = facing body rest s₁ ∧ rest.length ≤ ts.length ∧
      s₁.scope.length = s.scope.length := by
  obtain ⟨c, rest, s₂, hr, ha, hfin⟩ := (Reader.statement_ok hin hinside hs hn hc).mp h
  have hs' := hr.suffix_of hs
  have hlt := hr.length_lt
  have hflat := hr.depth hc ha
  simp only [List.length_cons] at hlt
  unfold Reader.Finished at hfin
  cases ho : c.opens with
  | false =>
    rw [ho, if_neg Bool.false_ne_true] at hfin
    refine ⟨[c], rest, s₂, .single hr, ?_, hfin, by omega, ?_⟩
    · rw [actAll_cons, ha]
      rfl
    · rw [hflat, ho]
      rfl
  | true =>
    rw [ho, if_pos rfl] at hfin
    obtain ⟨t', rest', s₃, hs₃, ht', hblock, rfl⟩ := hfin
    obtain ⟨cs, inner, s₄, hr', ha', heq, -, hd⟩ := hruns _ _ _ hs' (by omega) hblock
    obtain ⟨rfl, hstate⟩ := facing_inj hs₃ (hr'.suffix.trans hs') heq
    have hlen := hr'.suffix.length_le
    simp only [List.length_cons] at hlen
    have hopen : s₄.scope.isEmpty = false := by
      rw [hflat, ho] at hd
      cases hsc : s₄.scope with
      | nil => simp [hsc] at hd
      | cons => rfl
    refine ⟨c :: (cs ++ [.closing]), rest', s₄.close,
      .cons hr (hr'.append (.single (.closing ht'))), ?_, ?_, by omega, ?_⟩
    · rw [actAll_cons, ha, Option.bind_some, actAll_append, ha', Option.bind_some, actAll_cons,
        Clause.act, hopen]
      rfl
    · rw [← close_facing, hstate rest', close_facing]
    · rw [close_depth, hd, hflat, ho]
      rfl

/-- What a block reads is clauses from end to end, and it leaves as many components open as it
found. -/
theorem blockTo_sound (fuel : Nat) :
    RunsBelow (Reader.blockTo (α := α) input fuel) input body fuel := by
  induction fuel with
  | zero => exact fun _ _ _ _ hf => absurd hf (Nat.not_lt_zero _)
  | succ fuel ih =>
    intro ts s s' hs hf h
    match ts with
    | [] =>
      rw [blockTo_atEnd hin hs (.inl rfl)] at h
      cases h
      exact ⟨[], [], s, .nil, rfl, rfl, .inl rfl, rfl⟩
    | t :: ts =>
      have hlen : ts.length < fuel := Nat.lt_of_succ_lt_succ hf
      by_cases hc : t.kind = .rightBrace
      · rw [blockTo_atEnd hin hs (.inr hc)] at h
        cases h
        exact ⟨[], t :: ts, s, .nil, rfl, rfl, .inr hc, rfl⟩
      by_cases hn : t.kind = .newline
      · rw [blockTo_newline hin hs hn] at h
        obtain ⟨cs, rest, s₁, hr, ha, rfl, he, hd⟩ := ih _ _ _ (suffix_of_cons hs) hlen h
        exact ⟨.newline :: cs, rest, s₁, .cons (.newline hn) hr, ha, rfl, he, hd⟩
      rw [blockTo_statement hin hs hn hc, Reader.bind_ok] at h
      obtain ⟨_, s₁, h₁, h⟩ := h
      obtain ⟨cs, rest, s₂, hr, ha, rfl, hle, hd⟩ :=
        statement_run hin (blockTo_inside hin fuel) ih hs hlen hn hc h₁
      obtain ⟨ds, rest', s₃, hr', ha', rfl, he, hd'⟩ :=
        ih _ _ _ (hr.suffix.trans hs) (by omega) h
      refine ⟨cs ++ ds, rest', s₃, hr.append hr', ?_, rfl, he, hd'.trans hd⟩
      rw [actAll_append, ha]
      exact ha'

omit hin in
/-- A block stops before the rest as what is left of it after a step does. -/
theorem StopsBefore.of_step {fuel fuel' : Nat} {ts ts' rest : List Token} {s s₁ s' : State α}
    (h : StopsBefore input body fuel ts' rest s₁ s')
    (hstep : Reader.blockTo input fuel' (facing body ts s) =
      Reader.blockTo input fuel (facing body ts' s₁))
    (hsub : ts' <:+ ts) (hdepth : s₁.scope.length = s.scope.length) :
    StopsBefore input body fuel' ts rest s s' := by
  obtain ⟨cs, us, s₂, hok, hsub', hr, ha, hd, hcs⟩ := h
  exact ⟨cs, us, s₂, hstep.trans hok, hsub'.trans hsub, hr, ha, hd.trans hdepth, hcs⟩

omit hin in
/-- Where something that is open gets closed behind the block, the block ends at a brace. -/
theorem ReadsAll.of_stop {ts rest : List Token} {cs : List (Clause α)} {limit : Option Nat}
    {s s' : State α} (hr : ReadsAll ts cs rest) (hcs : cs = [] ∨ headKind ts = .rightBrace)
    (ha : actAll limit cs s = some s') (hlt : s'.scope.length < s.scope.length) :
    ∃ t ts' ds, ts = t :: ts' ∧ t.kind = .rightBrace ∧ ReadsAll ts' ds rest ∧
      actAll limit ds s.close = some s' := by
  cases hr with
  | nil =>
    cases ha
    exact absurd hlt (Nat.lt_irrefl _)
  | @cons _ c _ ds _ hc hrest =>
    have hbrace : headKind ts = .rightBrace := hcs.resolve_left (List.cons_ne_nil _ _)
    obtain ⟨t, tail, rfl, -⟩ := hc.suffix
    obtain ⟨rfl, rfl⟩ := hc.of_rightBrace hbrace
    rw [actAll_cons, Clause.act] at ha
    split at ha
    · cases ha
    · exact ⟨t, _, ds, rfl, hbrace, hrest, ha⟩

/-- A block reads clauses up to the first brace that closes more than they open. -/
theorem blockTo_complete {fuel : Nat} {ts rest : List Token} {cs : List (Clause α)}
    (hs : ts <:+ body) (hf : ts.length < fuel) (hr : ReadsAll ts cs rest) (he : AtEnd rest)
    {s s' : State α} (ha : actAll input.depthLimit cs s = some s')
    (hd : s'.scope.length ≤ s.scope.length) : StopsBefore input body fuel ts rest s s' := by
  induction fuel generalizing ts cs s with
  | zero => exact absurd hf (Nat.not_lt_zero _)
  | succ fuel ih =>
    cases hr with
    | nil => exact ⟨[], _, s, blockTo_atEnd hin hs he .., List.suffix_rfl, .nil, ha, rfl, .inl rfl⟩
    | @cons _ c ts' cs _ hc hrest =>
      obtain ⟨t, tail, rfl, -⟩ := hc.suffix
      have hs' := hc.suffix_of hs
      have hsub := hc.suffix_of List.suffix_rfl
      have hlt := hc.length_lt
      by_cases hb : t.kind = .rightBrace
      · exact ⟨c :: cs, t :: tail, s, blockTo_atEnd hin hs (.inr hb) .., List.suffix_rfl,
          .cons hc hrest, ha, rfl, .inr hb⟩
      by_cases hn : t.kind = .newline
      · obtain ⟨rfl, rfl⟩ := hc.of_newline hn
        exact (ih hs' (by omega) hrest ha hd).of_step (blockTo_newline hin hs hn fuel s) hsub rfl
      rw [actAll_cons] at ha
      obtain ⟨s₂, hact, ha⟩ := Option.bind_eq_some_iff.mp ha
      have hdepth := hc.depth hb hact
      have hblock := blockTo_statement hin hs hn hb fuel s
      cases ho : c.opens with
      | false =>
        have hst := Reader.statement_flat hin (blockTo_inside hin fuel) hs hn hb hc hact ho
        rw [ho, Bool.toNat_false, Nat.add_zero] at hdepth
        exact (ih hs' (by omega) hrest ha (by omega)).of_step
          (hblock.trans (Reader.bind_of_ok hst)) hsub hdepth
      | true =>
        rw [ho, Bool.toNat_true] at hdepth
        obtain ⟨cs', us, s₁, hok, hus, hr₁, ha₁, hd₁, hcs⟩ := ih hs' (by omega) hrest ha (by omega)
        -- the block cannot be the last thing read, since its component is still open
        obtain ⟨t', us', ds, rfl, hbrace, hr₂, ha₂⟩ := hr₁.of_stop hcs ha₁ (by omega)
        have hus' := hus.trans hs'
        have hst := Reader.statement_closed hin (blockTo_inside hin fuel) hs hn hb hc hact ho
          hus' hbrace hok
        have hlen := hus.length_le
        have hclose := close_depth s₁
        simp only [List.length_cons] at hlen
        exact (ih (suffix_of_cons hus') (by omega) hr₂ ha₂ (by omega)).of_step
          (hblock.trans (Reader.bind_of_ok hst)) ((suffix_of_cons hus).trans hsub) (by omega)

/-- Clauses that close what they open are read as one block. -/
theorem block_ok {ts : List Token} (hs : ts <:+ body) {s s' : State α} (hd : s.scope = []) :
    Reader.block input (facing body ts s) = .ok () s' ↔
      ∃ cs rest s₁, ReadsAll ts cs rest ∧ actAll input.depthLimit cs s = some s₁ ∧
        AtEnd rest ∧ s₁.scope = [] ∧ s' = facing body rest s₁ := by
  have hlen := hs.length_le
  have hf : ts.length < input.tokens.size + 1 := by
    rw [hin.tokens]
    simp only [List.size_toArray, List.length_append, List.length_singleton]
    omega
  constructor
  · intro h
    obtain ⟨cs, rest, s₁, hr, ha, rfl, he, hd'⟩ := blockTo_sound hin _ _ _ _ hs hf h
    rw [hd] at hd'
    exact ⟨cs, rest, s₁, hr, ha, he, List.eq_nil_of_length_eq_zero hd', rfl⟩
  · rintro ⟨cs, rest, s₁, hr, ha, he, hd', rfl⟩
    obtain ⟨cs', ts', s₂, h, -, hr', ha', hd₂, hcs⟩ :=
      blockTo_complete hin hs hf hr he ha (by simp [hd'])
    cases hr' with
    | nil =>
      cases ha'
      exact h
    | cons hc hrest =>
      -- a brace would close the block itself, and nothing is open there
      have hbrace := hcs.resolve_left (by simp)
      obtain ⟨t, tail, rfl, -⟩ := hc.suffix
      obtain ⟨rfl, rfl⟩ := hc.of_rightBrace hbrace
      rw [hd] at hd₂
      rw [actAll_cons, Clause.act, List.eq_nil_of_length_eq_zero hd₂] at ha'
      simp at ha'

end

end ComponentDiagram.Grammar
