import ComponentDiagram.Proofs.Grammar.Acceptance
import ComponentDiagram.Proofs.Grammar.Progress

/-! The loop over statements ends, whatever the tokens. A statement starts further on than the one
before it, and so do the statements in its block; after one turn for each token nothing is left to
read, and it does not matter what would be done in a further turn. -/
namespace ComponentDiagram.Grammar

variable {α β γ : Type}

/-! ## The end of the tokens -/

/-- The last token is an end of input. -/
def Input.IsEnded (input : Input) : Prop :=
  input.tokens.back?.map (·.kind) = some .endOfInput

theorem Input.ofTokens_isEnded (tokens : List Token) (file : Option Path) (text : Option String) :
    (Input.ofTokens tokens file text).IsEnded := by
  rw [IsEnded, ofTokens]
  simp only [closed, List.back?_toArray]
  split
  · assumption
  · rw [List.getLast?_concat, Option.map_some, endOf]
    split <;> rfl

theorem Input.IsEnded.kind {input : Input} (h : input.IsEnded) {i : Nat}
    (hi : input.tokens.size ≤ i + 1) : (input.token i).kind = .endOfInput := by
  obtain ⟨last, hlast, hkind⟩ := Option.map_eq_some_iff.mp h
  have hsome := hlast
  rw [Array.back?_eq_getElem?] at hsome
  have hlt : input.tokens.size - 1 < input.tokens.size := (Array.getElem?_eq_some_iff.mp hsome).1
  rw [Input.token]
  rcases Nat.lt_or_ge i input.tokens.size with hin | hout
  · obtain rfl : i = input.tokens.size - 1 := by omega
    rw [hsome]
    exact hkind
  · rw [Array.getElem?_eq_none hout, hlast]
    exact hkind

theorem Input.IsEnded.size_pos {input : Input} (h : input.IsEnded) : 0 < input.tokens.size := by
  obtain ⟨last, hlast, -⟩ := Option.map_eq_some_iff.mp h
  exact Array.size_pos_of_mem (Array.mem_of_back? hlast)

/-- Where input goes on, it is not the last token that is read. -/
theorem Input.IsEnded.lt {input : Input} (h : input.IsEnded) {i : Nat}
    (hi : (input.token i).kind ≠ .endOfInput) : i + 1 < input.tokens.size :=
  Nat.lt_of_not_le fun hsize => hi (h.kind hsize)

namespace Reader

variable {input : Input}

/-! ## What is read from a place on -/

/-- Two readers do the same wherever they start from a place on. -/
def AgreeFrom (n : Nat) (x y : Reader α β) : Prop := ∀ s, n ≤ s.index → x s = y s

namespace AgreeFrom

variable {n : Nat}

theorem refl (x : Reader α β) : AgreeFrom n x x := fun _ _ => rfl

/-- What follows need only agree from where it starts. -/
theorem bind_of {x : Reader α β} {f g : β → Reader α γ} {s : State α}
    (h : ∀ b s₁, x s = .ok b s₁ → f b s₁ = g b s₁) : (x >>= f) s = (x >>= g) s := by
  change EStateM.bind x f s = EStateM.bind x g s
  rw [EStateM.bind, EStateM.bind]
  cases hx : x s with
  | ok b s₁ => exact h b s₁ hx
  | error e s₁ => rfl

theorem bind {x : Reader α β} {f g : β → Reader α γ} (hx : Advances input x)
    (h : ∀ b, AgreeFrom n (f b) (g b)) : AgreeFrom n (x >>= f) (x >>= g) := by
  intro s hs
  exact bind_of fun b s₁ hb => h b s₁ (hs.trans (hx s b s₁ hb).index)

theorem bind_takes {x : Reader α β} {f g : β → Reader α γ} (hx : Takes input x)
    (h : ∀ b, AgreeFrom (n + 1) (f b) (g b)) : AgreeFrom n (x >>= f) (x >>= g) := by
  intro s hs
  exact bind_of fun b s₁ hb => h b s₁ (Nat.succ_le_of_lt (hs.trans_lt (hx s b s₁ hb).2))

theorem first {x y : Reader α β} (h : AgreeFrom n x y) (f : β → Reader α γ) :
    AgreeFrom n (x >>= f) (y >>= f) := by
  intro s hs
  change EStateM.bind x f s = EStateM.bind y f s
  rw [EStateM.bind, EStateM.bind, h s hs]

/-! ### Statements whose blocks are read alike -/

variable {inner inner' : Reader α Unit}

theorem blockPart (h : AgreeFrom n inner inner') (made : Component α) (attached : Bool)
    (m : String) : AgreeFrom n (blockPart input inner made attached m)
      (blockPart input inner' made attached m) := by
  refine bind (Advances.kind input) fun k => ?_
  split
  · refine bind (Advances.advance input) fun _ s hs => ?_
    exact first h _ (s.enter made attached) hs
  · exact refl _

theorem componentRest (h : AgreeFrom n inner inner') (opening : Token) (id label : String)
    (place : Option (α × α)) : AgreeFrom n (componentRest input inner opening id label place)
      (componentRest input inner' opening id label place) := by
  intro s hs
  rw [componentRest_eq, componentRest_eq]
  have hnoted : Moves input s (noted input.depthLimit opening id s) := .noted opening id s
  exact blockPart h _ _ _ _ (hs.trans hnoted.index)

variable [Scalar α]

theorem component (h : AgreeFrom (n + 1) inner inner') :
    AgreeFrom n (component input inner) (component input inner') := by
  exact bind_takes (Takes.expectKind (by decide)) fun opening =>
    bind (Advances.expect input _ _) fun id => bind (Advances.expect input _ _) fun _ =>
    bind (Advances.collect input _) fun label => bind (Advances.position input) fun place =>
    componentRest h opening id.text label place

theorem bracketStatement (h : AgreeFrom (n + 1) inner inner') :
    AgreeFrom n (bracketStatement input inner) (bracketStatement input inner') := by
  intro s hs
  -- whatever is looked at ahead, a component is read from the bracket on again
  have hback : AgreeFrom 0 (modify (fun t : State α => { t with index := s.index }) >>= fun _ =>
        Reader.component input inner >>= fun _ => pure ())
      (modify (fun t : State α => { t with index := s.index }) >>= fun _ =>
        Reader.component input inner' >>= fun _ => pure ()) := fun t _ =>
    first (component h) _ { t with index := s.index } hs
  refine bind_of fun _ _ hget => ?_
  cases hget
  refine (bind (n := 0) (Advances.expectKind input _) fun _ => bind (Advances.expect input _ _)
    fun _ => bind (Advances.expect input _ _) fun _ => bind (Advances.atEdge input) fun e => ?_) s
    (Nat.zero_le _)
  split
  · exact refl _
  · exact hback

theorem statement (h : AgreeFrom (n + 1) inner inner') :
    AgreeFrom n (statement input inner) (statement input inner') := by
  refine bind (Advances.kind input) fun k => ?_
  split
  · exact refl _
  · exact bracketStatement h
  · exact refl _
  · exact refl _

end AgreeFrom

/-! ## Turns of the loop -/

variable [Scalar α]

/-- One turn of the loop over statements. The reader that is given reads the blocks inside the
statement and what follows it. -/
def round (input : Input) (rest : Reader α Unit) : Reader α Unit := do
  match ← kind input with
  | .endOfInput | .rightBrace => pure ()
  | .newline =>
    let _ ← advance input
    rest
  | _ =>
    statement input rest
    rest

theorem blockTo_succ (n : Nat) :
    (blockTo input (n + 1) : Reader α Unit) = round input (blockTo input n) := rfl

section

variable {rest : Reader α Unit} {s : State α}

theorem round_closed (h : (input.token s.index).kind = .rightBrace ∨
    (input.token s.index).kind = .endOfInput) : round input rest s = .ok () s := by
  rw [round, bind_of_ok (kind_eq s)]
  rcases h with h | h <;> simp only [h, pure_run]

theorem round_newline (h : (input.token s.index).kind = .newline) :
    round input rest s = rest { s with index := s.index + 1 } := by
  rw [round, bind_of_ok (kind_eq s)]
  simp only [h]
  exact bind_of_ok (advance_eq (by simp [h]))

theorem round_statement (he : (input.token s.index).kind ≠ .endOfInput)
    (hb : (input.token s.index).kind ≠ .rightBrace) (hn : (input.token s.index).kind ≠ .newline) :
    round input rest s = (statement input rest >>= fun _ => rest) s := by
  rw [round, bind_of_ok (kind_eq s)]
  simp only

end

/-- A turn reads on from further places only. -/
theorem AgreeFrom.round {n : Nat} {rest rest' : Reader α Unit} (h : AgreeFrom (n + 1) rest rest')
    (hrest : Advances input rest') : AgreeFrom n (round input rest) (round input rest') := by
  intro s hs
  by_cases he : (input.token s.index).kind = .endOfInput
  · rw [round_closed (.inr he), round_closed (.inr he)]
  by_cases hb : (input.token s.index).kind = .rightBrace
  · rw [round_closed (.inl hb), round_closed (.inl hb)]
  by_cases hn : (input.token s.index).kind = .newline
  · rw [round_newline hn, round_newline hn]
    exact h _ (Nat.succ_le_succ hs)
  · rw [round_statement he hb hn, round_statement he hb hn]
    have hstatement : Reader.statement input rest s = Reader.statement input rest' s :=
      statement h s hs
    refine (first (n := s.index) (fun t ht => ?_) _ s le_rfl).trans (bind_of fun _ s₁ h₁ => ?_)
    · exact statement h t (hs.trans ht)
    · exact h s₁ (Nat.succ_le_of_lt (hs.trans_lt (Takes.statement hrest he h₁).2))

/-- A turn that succeeds finds the block closed, or leaves a later place to what reads on. -/
theorem round_ok {rest : Reader α Unit} (hrest : Advances input rest) {s s' : State α}
    (h : round input rest s = .ok () s') :
    s' = s ∧ ((input.token s.index).kind = .rightBrace ∨
      (input.token s.index).kind = .endOfInput) ∨
    ∃ s₁, Moves input s s₁ ∧ s.index < s₁.index ∧ rest s₁ = .ok () s' := by
  by_cases he : (input.token s.index).kind = .endOfInput
  · rw [round_closed (.inr he)] at h
    cases h
    exact .inl ⟨rfl, .inr he⟩
  by_cases hb : (input.token s.index).kind = .rightBrace
  · rw [round_closed (.inl hb)] at h
    cases h
    exact .inl ⟨rfl, .inl hb⟩
  by_cases hn : (input.token s.index).kind = .newline
  · rw [round_newline hn] at h
    exact .inr ⟨_, Advances.advance input s _ _ (advance_eq he), Nat.lt_succ_self _, h⟩
  · rw [round_statement he hb hn] at h
    obtain ⟨_, s₁, h₁, h⟩ := bind_ok.mp h
    obtain ⟨hmoves, hlt⟩ := Takes.statement hrest he h₁
    exact .inr ⟨s₁, hmoves, hlt, h⟩

theorem Advances.round {rest : Reader α Unit} (h : Advances input rest) :
    Advances input (round input rest) := by
  intro s _ s' hs
  rcases round_ok h hs with ⟨rfl, -⟩ | ⟨s₁, hmoves, -, hrest⟩
  · exact .refl s'
  · exact hmoves.trans (h _ _ _ hrest)

theorem Advances.blockTo (fuel : Nat) : Advances input (blockTo input fuel : Reader α Unit) := by
  induction fuel with
  | zero => exact pure ()
  | succ fuel ih => exact ih.round

theorem Advances.block : Advances input (block input : Reader α Unit) := blockTo _

/-! ## The loop -/

section

variable (hend : input.IsEnded)

include hend

/-- Turns enough for the tokens that are left are as good as any other number of them, whatever
stands where a further turn would be. -/
theorem iterate_round (last : Reader α Unit) {n m : Nat} {s : State α}
    (hn : input.tokens.size ≤ s.index + n) (hm : input.tokens.size ≤ s.index + m) :
    (round input)^[n + 1] last s = blockTo input (m + 1) s := by
  induction n generalizing m s with
  | zero =>
    have he : (input.token s.index).kind = .endOfInput := hend.kind (Nat.le_succ_of_le hn)
    rw [Function.iterate_succ_apply', blockTo_succ, round_closed (.inr he), round_closed (.inr he)]
  | succ n ih =>
    rw [Function.iterate_succ_apply', blockTo_succ]
    by_cases he : (input.token s.index).kind = .endOfInput
    · rw [round_closed (.inr he), round_closed (.inr he)]
    have hlt := hend.lt he
    cases m with
    | zero => omega
    | succ m =>
      -- the readers of a further turn agree from the next token on
      refine AgreeFrom.round (fun t ht => ih ?_ ?_) (.blockTo _) s le_rfl <;> omega

theorem iterate_round_block (last : Reader α Unit) {n : Nat} {s : State α}
    (hn : input.tokens.size ≤ s.index + n) : (round input)^[n + 1] last s = block input s :=
  iterate_round hend last hn (Nat.le_add_left ..)

/-- The block is the loop without a bound. -/
theorem block_eq : (block input : Reader α Unit) = round input (block input) := by
  funext s
  have hsize : input.tokens.size ≤ s.index + input.tokens.size := Nat.le_add_left ..
  rw [← iterate_round_block hend (pure ()) hsize]
  exact iterate_round hend (pure ()) hsize (Nat.le_succ_of_le hsize)

/-- A block ends where it is closed. -/
theorem blockTo_closed {n : Nat} {s s' : State α} (hn : input.tokens.size ≤ s.index + n)
    (h : blockTo input (n + 1) s = .ok () s') : (input.token s'.index).kind = .rightBrace ∨
      (input.token s'.index).kind = .endOfInput := by
  induction n generalizing s with
  | zero =>
    have he : (input.token s.index).kind = .endOfInput := hend.kind (Nat.le_succ_of_le hn)
    rw [blockTo_succ, round_closed (.inr he)] at h
    cases h
    exact .inr he
  | succ n ih =>
    rw [blockTo_succ] at h
    rcases round_ok (.blockTo _) h with ⟨rfl, hclosed⟩ | ⟨s₁, -, hlt, h⟩
    · exact hclosed
    · exact ih (by omega) h

theorem block_closed {s s' : State α} (h : block input s = .ok () s') :
    (input.token s'.index).kind = .rightBrace ∨ (input.token s'.index).kind = .endOfInput :=
  blockTo_closed hend (Nat.le_add_left ..) h

end

/-! ## Diagrams -/

/-- Wherever the reader starts, if it succeeds it has gone on to an end of input. -/
def Ends (input : Input) (x : Reader α β) : Prop :=
  ∀ s b s', x s = .ok b s' → Moves input s s' ∧ (input.token s'.index).kind = .endOfInput

namespace Ends

omit [Scalar α] in
theorem after {x : Reader α β} {f : β → Reader α γ} (hx : Advances input x)
    (hf : ∀ b, Ends input (f b)) : Ends input (x >>= f) := by
  intro s c s' h
  obtain ⟨b, s₁, hb, h⟩ := bind_ok.mp h
  obtain ⟨hmoves, hkind⟩ := hf b s₁ c s' h
  exact ⟨(hx s b s₁ hb).trans hmoves, hkind⟩

omit [Scalar α] in
/-- The last step of a diagram changes nothing, and finds none of the kinds that it refuses. -/
theorem ending (refused : TokenKind → Bool) {m : String} {type : DiagramType} {s s' : State α}
    {doc : Document α} (h : (do
      let t ← current input
      if refused t.kind then
        failAt input m t
      return (← get).document type : Reader α (Document α)) s = .ok doc s') :
    s' = s ∧ refused (input.token s.index).kind = false := by
  obtain ⟨_, _, ht, h⟩ := bind_ok.mp h
  cases ht
  split at h
  · obtain ⟨_, _, hfail, _⟩ := bind_ok.mp h
    cases hfail
  · rename_i hkind
    cases h
    exact ⟨rfl, Bool.eq_false_iff.mpr hkind⟩

theorem wrappedPart (type : DiagramType) :
    Ends input (wrappedPart input type : Reader α (Document α)) := by
  refine after (.advance input) fun _ => after (.advance input) fun _ =>
    after (.expect input _ _) fun _ => after (.skipNewlines input) fun _ =>
    after (.expect input _ _) fun _ => after .block fun _ => after (.expect input _ _) fun _ =>
    after (.skipNewlines input) fun _ s doc s' h => ?_
  obtain ⟨rfl, hkind⟩ := ending (· != .endOfInput) h
  exact ⟨.refl s', by simpa using hkind⟩

variable (hend : input.IsEnded)

include hend

/-- Without a wrapper no brace is left: it would be refused. -/
theorem plainPart : Ends input (plainPart input : Reader α (Document α)) := by
  intro s doc s' h
  obtain ⟨_, s₁, hblock, h⟩ := bind_ok.mp h
  obtain ⟨rfl, hkind⟩ := ending (· == .rightBrace) h
  have hmoves := Advances.block _ _ _ hblock
  exact ⟨hmoves, (block_closed hend hblock).resolve_left (beq_eq_false_iff_ne.mp hkind)⟩

theorem document : Ends input (document input : Reader α (Document α)) := by
  refine after (.skipNewlines input) fun _ => after (.wrapper? input) fun type => ?_
  cases type with
  | some type => exact wrappedPart type
  | none => exact plainPart hend

end Ends

end Reader

/-! ## Every list of tokens -/

/-- From one of the tokens a reader goes on to one of them. -/
theorem Moves.lt_size {input : Input} {s s' : State α} (hend : input.IsEnded)
    (h : Moves input s s') (hs : s.index < input.tokens.size) : s'.index < input.tokens.size := by
  by_contra hsize
  have hbefore := h.between (input.tokens.size - 1) (Nat.le_sub_one_of_lt hs) (by omega)
  exact hbefore (hend.kind (Nat.le_add_of_sub_le le_rfl))

/-- Reading these tokens comes to an end, wherever it starts. -/
structure Input.Progresses (α : Type) [Scalar α] (input : Input) : Prop where
  /-- A statement fails, or takes a token and goes over no end of input; what was open before it
  is open behind it. -/
  statement (s : State α) : (input.token s.index).kind ≠ .endOfInput →
    (∃ e s', Reader.statement input (Reader.block input) s = .error e s') ∨
    ∃ s', Reader.statement input (Reader.block input) s = .ok () s' ∧ s.index < s'.index ∧
      s'.index < input.tokens.size ∧ Moves input s s'
  /-- A block is a loop without a bound. -/
  loop : (Reader.block input : Reader α Unit) = Reader.round input (Reader.block input)
  /-- The loop, and each block inside it, is done after a turn for each token that is left and one
  more: whatever would be done in a further turn makes no difference. -/
  turns (further : Reader α Unit) (s : State α) :
    (Reader.round input)^[input.tokens.size - s.index + 1] further s = Reader.block input s
  /-- A block that is read stops at a closing brace or an end of input. -/
  block (s s' : State α) : Reader.block input s = .ok () s' → Moves input s s' ∧
    ((input.token s'.index).kind = .rightBrace ∨ (input.token s'.index).kind = .endOfInput)
  /-- A diagram that is read stops at an end of input, with nothing open. -/
  document (doc : Document α) (s' : State α) : Reader.document input {} = .ok doc s' →
    Moves input {} s' ∧ s'.index < input.tokens.size ∧
      (input.token s'.index).kind = .endOfInput ∧ s'.scope = []

theorem Input.IsEnded.progresses [Scalar α] {input : Input} (hend : input.IsEnded) :
    input.Progresses α where
  statement s hk := by
    cases h : Reader.statement input (Reader.block input) s with
    | error e s' => exact .inl ⟨e, s', rfl⟩
    | ok _ s' =>
      obtain ⟨hmoves, hlt⟩ := Reader.Takes.statement .block hk h
      have hs : s.index < input.tokens.size := Nat.lt_of_succ_lt (hend.lt hk)
      exact .inr ⟨s', rfl, hlt, hmoves.lt_size hend hs, hmoves⟩
  loop := Reader.block_eq hend
  turns further _ := Reader.iterate_round_block hend further le_add_tsub
  block s s' h := ⟨Reader.Advances.block s () s' h, Reader.block_closed hend h⟩
  document doc s' h := by
    obtain ⟨hmoves, hkind⟩ := Reader.Ends.document hend _ _ _ h
    have hscope : SameScope [] s'.scope := hmoves.scope
    exact ⟨hmoves, hmoves.lt_size hend hend.size_pos, hkind, List.forall₂_nil_left_iff.mp hscope⟩

/-- Whatever the tokens are, and however little they make a diagram. -/
theorem ofTokens_progresses [Scalar α] (tokens : List Token) (file : Option Path)
    (text : Option String) : (Input.ofTokens tokens file text).Progresses α :=
  (Input.ofTokens_isEnded tokens file text).progresses

theorem Reader.ok_of_run' {x : Reader α β} {s : State α} {b : β} (h : x.run' s = some b) :
    ∃ s', x s = .ok b s' := by
  rw [EStateM.run', EStateM.run] at h
  split at h
  · rename_i s' hx
    cases h
    exact ⟨s', hx⟩
  · cases h

/-- A component with an edge and another component in its block, which start alike, and with a line
that starts nothing. -/
def looseTokens : List Token :=
  Source.tokens "[a] \x7b\n, [lost\n[e] a -> b\n[b] -> @ 1,2 \x7b \x7d\n\x7d\n" false

theorem ofTokens_progresses_looseTokens :
    let input := Input.ofTokens looseTokens none none
    (∃ s' : State Rat, Reader.statement input (Reader.block input) {} = .ok () s' ∧
      0 < s'.index ∧ s'.index < input.tokens.size ∧ Moves input {} s') ∧
    ∃ (doc : Document Rat) (s' : State Rat), Reader.document input {} = .ok doc s' ∧
      (input.token s'.index).kind = .endOfInput ∧ s'.scope = [] := by
  intro input
  have hprogress : input.Progresses Rat := ofTokens_progresses looseTokens none none
  have hopen : (input.token 0).kind ≠ .endOfInput := by decide +kernel
  have hreads : ((Reader.statement input (Reader.block input)).run' ({} : State Rat)).isSome ∧
      ((Reader.document input).run' ({} : State Rat)).isSome := by decide +kernel
  obtain ⟨⟨_, hstatement⟩, ⟨doc, hdocument⟩⟩ := hreads.imp Option.isSome_iff_exists.mp
    Option.isSome_iff_exists.mp
  obtain ⟨s₁, hstatement⟩ := Reader.ok_of_run' hstatement
  obtain ⟨s₂, hdocument⟩ := Reader.ok_of_run' hdocument
  obtain ⟨-, -, hkind, hscope⟩ := hprogress.document doc s₂ hdocument
  refine ⟨(hprogress.statement {} hopen).resolve_left ?_, doc, s₂, hdocument, hkind, hscope⟩
  rintro ⟨e, s', h⟩
  cases hstatement.symm.trans h

end ComponentDiagram.Grammar
