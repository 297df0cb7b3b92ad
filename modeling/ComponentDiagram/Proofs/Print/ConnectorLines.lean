import ComponentDiagram.Print.Positions
import ComponentDiagram.Proofs.Source.Cut

/-! A line that holds an arrow or an interface symbol is one of whose tokens is a connector. -/
namespace ComponentDiagram.Print
open Source

/-- An arrow or an interface symbol stands at the front. -/
def drawsConnector (cs : List Char) : Bool :=
  ['-', '>'].isPrefixOf cs || (InterfaceSymbol.match? cs).isSome

theorem isConnectorLine_cons (c : Char) (rest : List Char) :
    isConnectorLine (c :: rest) = (drawsConnector (c :: rest) || isConnectorLine rest) := by
  simp only [isConnectorLine, Text.contains, InterfaceSymbol.occursIn, drawsConnector]
  ac_rfl

/-- What is drawn starts with a dash that belongs to no word. -/
theorem startsConnectorTail_of_drawn {c : Char} {rest : List Char}
    (h : drawsConnector (c :: rest) = true) : c = '-' ∧ startsConnectorTail rest = true := by
  by_cases hc : c = '-'
  · subst hc
    refine ⟨rfl, ?_⟩
    cases rest with
    | nil => cases h
    | cons d rest =>
      rw [drawsConnector, Bool.or_eq_true] at h
      rcases h with h | h
      · have hd : d = '>' := by
          simp [List.isPrefixOf] at h
          exact h.symm
        simp [startsConnectorTail, hd]
      · cases hp : InterfaceSymbol.isParenthesis d with
        | false => simp [InterfaceSymbol.match?, hp] at h
        | true =>
          have hd : d = '(' ∨ d = ')' := by simpa [InterfaceSymbol.isParenthesis] using hp
          rcases hd with rfl | rfl <;> rfl
  · simp [drawsConnector, List.isPrefixOf, InterfaceSymbol.match?, hc, Ne.symm hc] at h

/-- What cannot be the dash of a connector says nothing about the line. -/
theorem isConnectorLine_skip {c : Char} {rest : List Char}
    (h : c = '-' → startsConnectorTail rest = false) :
    isConnectorLine (c :: rest) = isConnectorLine rest := by
  rw [isConnectorLine_cons]
  cases hd : drawsConnector (c :: rest) with
  | false => rfl
  | true =>
    obtain ⟨hc, hr⟩ := startsConnectorTail_of_drawn hd
    rw [h hc] at hr
    cases hr

theorem isConnectorLine_skipAll {run rest : List Char} (h : ∀ c ∈ run, c ≠ '-') :
    isConnectorLine (run ++ rest) = isConnectorLine rest := by
  induction run with
  | nil => rfl
  | cons c run ih =>
    obtain ⟨hc, hrun⟩ := List.forall_mem_cons.mp h
    rw [List.cons_append, isConnectorLine_skip fun he => absurd he hc, ih hrun]

/-- No connector starts in a word. -/
theorem isConnectorLine_wordRun (cs : List Char) :
    isConnectorLine cs = isConnectorLine (cs.drop (wordRun cs).length) := by
  induction cs with
  | nil => rfl
  | cons c rest ih =>
    rw [wordRun]
    split
    · rename_i hc
      rw [List.length_cons, List.drop_succ_cons, ← ih]
      refine isConnectorLine_skip fun hdash => ?_
      subst hdash
      have hdash : (Text.isAlphanumeric '-' || '-' == '_' || '-' == '.') = false := by decide
      rw [hdash, Bool.false_or, beq_self_eq_true, Bool.true_and] at hc
      exact Bool.not_eq_eq_eq_not.mp hc
    · rfl

/-- What the scanner finds at the front is drawn there. -/
theorem isConnectorLine_of_connector? {c : Char} {rest x : List Char} {k : TokenKind}
    (h : connector? (c :: rest) = some (k, x)) : isConnectorLine (c :: rest) = true := by
  have harrow {d : Char} {ds : List Char} (hp : ['-', '>'] <+: d :: ds) :
      isConnectorLine (d :: ds) = true := by
    rw [isConnectorLine_cons, drawsConnector, List.isPrefixOf_iff_prefix.mpr hp, Bool.true_or,
      Bool.true_or]
  unfold connector? at h
  split at h
  · rename_i hp
    have hshort : ['-', '>'] <+: delegateArrow := by decide
    exact harrow (hshort.trans (List.isPrefixOf_iff_prefix.mp hp))
  split at h
  · rename_i hp
    obtain ⟨more, hmore⟩ := List.isPrefixOf_iff_prefix.mp hp
    obtain ⟨-, hrest⟩ := List.cons_eq_cons.mp hmore
    have hinner : isConnectorLine rest = true := by
      rw [← hrest]
      exact harrow ⟨more, rfl⟩
    rw [isConnectorLine_cons, hinner, Bool.or_true]
  split at h
  · exact harrow (List.isPrefixOf_iff_prefix.mp ‹_›)
  · obtain ⟨mark, hm, -⟩ := Option.map_eq_some_iff.mp h
    rw [isConnectorLine_cons, drawsConnector, hm, Option.isSome_some, Bool.or_true, Bool.true_or]

/-- Where the scanner finds no connector, none is drawn. -/
theorem isConnectorLine_of_none {c : Char} {rest : List Char}
    (h : connector? (c :: rest) = none) : isConnectorLine (c :: rest) = isConnectorLine rest := by
  have hdraws : drawsConnector (c :: rest) = false := by
    rw [connector?] at h
    split at h
    · cases h
    split at h
    · cases h
    split at h
    · cases h
    · rename_i hp
      rw [Option.map_eq_none_iff] at h
      rw [Bool.not_eq_true] at hp
      rw [drawsConnector, hp, h]
      rfl
  rw [isConnectorLine_cons, hdraws, Bool.false_or]

private theorem numberRun_tail {c : Char} {rest tail : List Char}
    (h : numberRun (c :: rest) = c :: tail) : ∀ d ∈ tail, d ≠ '-' := by
  have hdigit {ds : List Char} (hd : '-' ∈ ds.takeWhile Char.isDigit) : False := by
    have hd := List.mem_takeWhile_imp hd
    cases hd
  rintro d hd rfl
  by_cases hc : c = '-'
  · subst hc
    rw [numberRun] at h
    rw [← (List.cons.inj h).2] at hd
    exact hdigit hd
  · rw [numberRun] at h
    · exact hdigit (h ▸ List.mem_cons_of_mem c hd)
    · rintro rest' he
      exact hc (List.cons.inj he).1

/-- A token that is no connector says nothing about the line. -/
private theorem isConnectorLine_token {c : Char} {tail more : List Char} {k : TokenKind}
    (h : Rule c (tail ++ more) k (c :: tail)) (hk : k.isConnector = false) :
    isConnectorLine (c :: tail ++ more) = isConnectorLine more := by
  have hplain (hc : c ≠ '-') (hx : [c] = c :: tail) :
      isConnectorLine (c :: tail ++ more) = isConnectorLine more := by
    rw [← (List.cons.inj hx).2]
    exact isConnectorLine_skip fun he => absurd he hc
  generalize hx : c :: tail = x at h
  cases h with
  | newline hc => exact hx ▸ hplain (by rw [hc]; decide) hx.symm
  | delimiter _ hd =>
    refine hx ▸ hplain ?_ hx.symm
    rintro rfl
    cases hd
  | connector hc hf =>
    rw [isConnector_of_connector? hf] at hk
    cases hk
  | word =>
    have hword := isConnectorLine_wordRun (c :: (tail ++ more))
    rw [← hx, List.length_cons, List.drop_succ_cons, List.drop_left] at hword
    rw [← hx]
    exact hword
  | number _ _ hf =>
    rw [← hx, List.cons_append, isConnectorLine_of_none hf,
      isConnectorLine_skipAll (numberRun_tail hx.symm)]
  | other _ _ hf =>
    obtain rfl : tail = [] := (List.cons.inj hx).2
    exact isConnectorLine_of_none hf

/-- A connector's token is the connector at the front. -/
private theorem connector?_of_rule {c : Char} {rest x : List Char} {k : TokenKind}
    (h : Rule c rest k x) (hk : k.isConnector = true) : connector? (c :: rest) = some (k, x) := by
  cases h with
  | newline => cases hk
  | delimiter _ hd =>
    unfold delimiter? at hd
    split at hd <;> cases hd <;> cases hk
  | connector _ hf => exact hf
  | word =>
    unfold wordKind at hk
    repeat' split at hk
    all_goals cases hk
  | number => cases hk
  | other => cases hk

/-- A line holds an arrow or an interface symbol exactly if one of its tokens is a connector. -/
theorem isConnectorLine_iff (cs : List Char) :
    isConnectorLine cs = true ↔ ∃ t ∈ cut cs, t.kind.isConnector = true := by
  induction cs using cut_induction with
  | nil => simp [isConnectorLine, Text.contains, InterfaceSymbol.occursIn]
  | blank c rest hc ih =>
    rw [cut_cons_of_blank hc, ← ih, isConnectorLine_skip]
    rintro rfl
    cases hc
  | lexed c tail more k hc h _ ih =>
    have hcut : cut (c :: tail ++ more) = lexemeToken k (c :: tail) :: cut more := by
      rw [List.cons_append, cut_cons_of_lexeme hc h, List.length_cons, List.drop_succ_cons,
        List.drop_left]
    have hrule := (lexeme_rule hc).mp h
    rw [hcut]
    cases hk : k.isConnector with
    | true =>
      have hdrawn := isConnectorLine_of_connector? (connector?_of_rule hrule hk)
      rw [List.cons_append, hdrawn]
      simp [lexemeToken, hk]
    | false =>
      rw [isConnectorLine_token hrule hk, ih]
      simp [lexemeToken, hk]

end ComponentDiagram.Print
