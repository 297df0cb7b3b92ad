import ComponentDiagram.Proofs.Source.Cut

/-! The tokens of a text cover it: each character belongs to one token, and each token knows where it
stands. Blanks and words are cut as long as they go. -/
namespace ComponentDiagram

/-- The place behind a stretch of text that starts at the first line: one line more for each line
feed in it, and one column more for each character behind the last of them. -/
def Position.behind (cs : List Char) : Position :=
  ⟨cs.count '\n' + 1, (cs.reverse.takeWhile (· != '\n')).length + 1⟩

theorem Position.after_append (p : Position) (a b : List Char) :
    p.after (a ++ b) = (p.after a).after b :=
  List.foldl_append

/-- Stepping over a text counts its lines and columns. -/
theorem Position.after_start (cs : List Char) : Position.after ⟨1, 1⟩ cs = .behind cs := by
  induction cs using List.reverseRecOn with
  | nil => rfl
  | append_singleton cs c ih =>
    rw [Position.after_append, ih]
    by_cases hc : c = '\n'
    · subst hc
      simp [Position.after, Position.step, Position.behind]
    · simp [Position.after, Position.step, Position.behind, hc]

/-- The place comes earlier in a text: on an earlier line, or further left on the same one. -/
def Position.Before (p q : Position) : Prop :=
  p.line < q.line ∨ p.line = q.line ∧ p.column < q.column

instance (p q : Position) : Decidable (p.Before q) :=
  inferInstanceAs (Decidable (_ ∨ _ ∧ _))

theorem Position.Before.trans {p q r : Position} (h : p.Before q) (k : q.Before r) :
    p.Before r := by
  unfold Position.Before at h k ⊢
  omega

theorem Position.before_step (p : Position) (c : Char) : p.Before (p.step c) := by
  unfold Position.step
  split
  · exact .inl (Nat.lt_succ_self _)
  · exact .inr ⟨rfl, Nat.lt_succ_self _⟩

theorem Position.before_after (p : Position) (c : Char) (cs : List Char) :
    p.Before (p.after (c :: cs)) := by
  induction cs generalizing p c with
  | nil => exact p.before_step c
  | cons d cs ih => exact (p.before_step c).trans (ih (p.step c) d)

namespace Source

/-! ## One lexeme after the other -/

/-- A lexeme, blank or not, is a start of the text. -/
theorem lexeme_start {c : Char} {rest x : List Char} {k : TokenKind} (h : lexeme c rest = (k, x)) :
    ∃ tail more, x = c :: tail ∧ rest = tail ++ more := by
  cases hc : isBlank c with
  | true =>
    rw [lexeme_of_blank hc] at h
    cases h
    exact ⟨_, _, rfl, List.takeWhile_append_dropWhile.symm⟩
  | false =>
    obtain ⟨tail, rfl, ⟨more, rfl⟩, -⟩ := lexeme_self hc h
    exact ⟨tail, more, rfl, rfl⟩

theorem scan_lexeme {c : Char} {tail more : List Char} {k : TokenKind} (p : Position)
    (h : lexeme c (tail ++ more) = (k, c :: tail)) :
    scan true p 0 (c :: tail ++ more) =
      ⟨k, String.ofList (c :: tail), p⟩ :: scan true (p.after (c :: tail)) 0 more := by
  rw [List.cons_append, scan_cons, h]
  simp only [List.length_cons, Nat.add_sub_cancel]
  rw [scan_skip, List.take_left, List.drop_left]
  rfl

/-- What holds of no text, and of a text if it holds behind the lexeme at its front, holds of the
tokens of every text, wherever it stands. -/
theorem scan_induction {P : Position → List Char → List Token → Prop}
    (nil : ∀ p, P p [] [⟨.endOfInput, "", p⟩])
    (lexed : ∀ p c tail more k ts, lexeme c (tail ++ more) = (k, c :: tail) →
      scan true (p.after (c :: tail)) 0 more = ts → P (p.after (c :: tail)) more ts →
      P p (c :: tail ++ more) (⟨k, String.ofList (c :: tail), p⟩ :: ts))
    (p : Position) (cs : List Char) : P p cs (scan true p 0 cs) := by
  induction hn : cs.length using Nat.strong_induction_on generalizing p cs with
  | _ n ih =>
    subst hn
    cases cs with
    | nil => exact nil p
    | cons c rest =>
      rcases hl : lexeme c rest with ⟨k, x⟩
      obtain ⟨tail, more, rfl, rfl⟩ := lexeme_start hl
      rw [← List.cons_append, scan_lexeme p hl]
      refine lexed p c tail more k _ hl rfl (ih _ ?_ _ more rfl)
      simp only [List.length_cons, List.length_append]
      omega

/-! ## Neighbours -/

theorem kind_of_nonblank {c : Char} (hc : isBlank c = false) {rest x : List Char} {k : TokenKind}
    (h : lexeme c rest = (k, x)) : k ≠ .blank ∧ k ≠ .endOfInput := by
  have hs := isSubstantial_lexeme hc h (t := lexemeToken k x) rfl
  simpa [isSubstantial, lexemeToken] using hs

theorem isBlank_of_kind {c : Char} {rest x : List Char} {k : TokenKind}
    (h : lexeme c rest = (k, x)) (hk : k = .blank) : isBlank c = true := by
  cases hc : isBlank c with
  | true => rfl
  | false => exact absurd hk (kind_of_nonblank hc h).1

/-- A word starts like one, and takes all the characters of a word. -/
theorem word_of_kind {c : Char} {rest x : List Char} {k : TokenKind} (h : lexeme c rest = (k, x))
    (hk : isWord k = true) :
    (Text.isLetter c || c == '_' || c == '.') = true ∧ x = wordRun (c :: rest) := by
  cases hc : isBlank c with
  | true =>
    rw [lexeme_of_blank hc] at h
    cases h
    cases hk
  | false =>
    rw [lexeme_rule hc] at h
    cases h with
    | newline => cases hk
    | delimiter _ hd =>
      unfold delimiter? at hd
      split at hd <;> cases hd <;> cases hk
    | connector _ hf =>
      have hconnector := isConnector_of_connector? hf
      have hplain : isWord k = false := by cases k <;> first | rfl | cases hconnector
      rw [hk] at hplain
      cases hplain
    | word _ _ _ hw => exact ⟨hw, rfl⟩
    | number => cases hk
    | other => cases hk

/-- No word starts where a word ends. -/
theorem wordRun_maximal {a : List Char} {d : Char} {more : List Char}
    (h : wordRun (a ++ d :: more) = a) : (Text.isLetter d || d == '_' || d == '.') = false := by
  induction a with
  | nil =>
    rw [List.nil_append, wordRun] at h
    split at h
    · cases h
    · rename_i hd
      simp only [Bool.or_eq_true, not_or, Bool.not_eq_true] at hd
      cases hl : Text.isLetter d with
      | true => simp [Text.isAlphanumeric_of_isLetter d hl] at hd
      | false => simp [hd]
  | cons c a ih =>
    rw [List.cons_append, wordRun] at h
    split at h
    · exact ih (List.cons.inj h).2
    · cases h

/-- A blank is not cut in front of a blank, nor a word in front of a word. -/
theorem lexemes_apart {c d : Char} {tail more y : List Char} {k k' : TokenKind}
    (h : lexeme c (tail ++ d :: more) = (k, c :: tail)) (h' : lexeme d more = (k', y)) :
    ¬ (k = .blank ∧ k' = .blank) ∧ ¬ (isWord k = true ∧ isWord k' = true) := by
  constructor
  · rintro ⟨rfl, rfl⟩
    have hd := isBlank_of_kind h' rfl
    rw [lexeme_of_blank (isBlank_of_kind h rfl)] at h
    have htail : (tail ++ d :: more).takeWhile isBlank = tail := by simpa using h
    have hblank : ∀ e ∈ tail, isBlank e = true := fun e he => List.mem_takeWhile_imp (htail ▸ he)
    rw [List.takeWhile_append_of_pos hblank, List.takeWhile_cons_of_pos hd] at htail
    simp at htail
  · rintro ⟨hk, hk'⟩
    have hrun : wordRun (c :: tail ++ d :: more) = c :: tail := (word_of_kind h hk).2.symm
    have hword := wordRun_maximal hrun
    rw [(word_of_kind h' hk').1] at hword
    cases hword

/-! ## Coverage -/

/-- The tokens are all of the text, one after the other, and each stands where it says. -/
structure IsCover (text : String) (ts : List Token) : Prop where
  joined : ts.flatMap (·.text.toList) = text.toList
  /-- The end of input is reached once, behind tokens that are not empty. -/
  ended : ∃ pieces, ts = pieces ++ [⟨.endOfInput, "", .behind text.toList⟩] ∧
    ∀ t ∈ pieces, t.kind ≠ .endOfInput ∧ t.text ≠ ""
  located : ∀ before t after, ts = before ++ t :: after →
    t.position = .behind (before.flatMap (·.text.toList))
  apart : ts.IsChain fun s t =>
    ¬ (s.kind = .blank ∧ t.kind = .blank) ∧ ¬ (isWord s.kind = true ∧ isWord t.kind = true)

theorem scan_joined (p : Position) (cs : List Char) :
    (scan true p 0 cs).flatMap (·.text.toList) = cs := by
  induction p, cs using scan_induction with
  | nil p => rfl
  | lexed p c tail more k ts _ _ ih => rw [List.flatMap_cons, ih, String.toList_ofList]

theorem scan_ended (p : Position) (cs : List Char) :
    ∃ pieces, scan true p 0 cs = pieces ++ [⟨.endOfInput, "", p.after cs⟩] ∧
      ∀ t ∈ pieces, t.kind ≠ .endOfInput ∧ t.text ≠ "" := by
  induction p, cs using scan_induction with
  | nil p => exact ⟨[], rfl, by simp⟩
  | lexed p c tail more k ts hl _ ih =>
    obtain ⟨pieces, rfl, hpieces⟩ := ih
    refine ⟨⟨k, String.ofList (c :: tail), p⟩ :: pieces, ?_, List.forall_mem_cons.mpr ⟨?_, hpieces⟩⟩
    · rw [Position.after_append, List.cons_append]
    · refine ⟨?_, by simp⟩
      cases hc : isBlank c with
      | true =>
        rw [lexeme_of_blank hc] at hl
        rw [← (Prod.mk.inj hl).1]
        simp
      | false => exact (kind_of_nonblank hc hl).2

theorem scan_located (p : Position) (cs : List Char) : ∀ before t after,
    scan true p 0 cs = before ++ t :: after → t.position = p.after (before.flatMap (·.text.toList)) := by
  induction p, cs using scan_induction with
  | nil p =>
    intro before t after h
    cases before with
    | nil => cases h; rfl
    | cons b before => simp at h
  | lexed p c tail more k ts _ _ ih =>
    intro before t after h
    cases before with
    | nil => cases h; rfl
    | cons b before =>
      obtain ⟨rfl, hts⟩ := List.cons.inj h
      rw [ih before t after hts, List.flatMap_cons, String.toList_ofList, Position.after_append]

theorem scan_apart (p : Position) (cs : List Char) : (scan true p 0 cs).IsChain fun s t =>
    ¬ (s.kind = .blank ∧ t.kind = .blank) ∧ ¬ (isWord s.kind = true ∧ isWord t.kind = true) := by
  induction p, cs using scan_induction with
  | nil p => exact .singleton _
  | lexed p c tail more k ts hl hts ih =>
    refine List.isChain_cons.mpr ⟨fun t ht => ?_, ih⟩
    subst hts
    cases more with
    | nil =>
      cases ht
      simp [isWord]
    | cons d more =>
      rw [scan_cons] at ht
      cases ht
      exact lexemes_apart hl rfl

/-- No two tokens stand at one place. -/
theorem scan_ordered (p : Position) (cs : List Char) :
    ((scan true p 0 cs).map (·.position)).Pairwise Position.Before := by
  suffices h : ((scan true p 0 cs).map (·.position)).Pairwise Position.Before ∧
      ∀ t ∈ scan true p 0 cs, t.position = p ∨ p.Before t.position from h.1
  induction p, cs using scan_induction with
  | nil p => exact ⟨List.pairwise_singleton _ _, by simp⟩
  | lexed p c tail more k ts _ _ ih =>
    have hlater : ∀ t ∈ ts, p.Before t.position := by
      intro t ht
      rcases ih.2 t ht with he | hb
      · rw [he]
        exact p.before_after c tail
      · exact (p.before_after c tail).trans hb
    refine ⟨List.pairwise_cons.mpr ⟨?_, ih.1⟩, List.forall_mem_cons.mpr ⟨.inl rfl, ?_⟩⟩
    · intro q hq
      obtain ⟨t, ht, rfl⟩ := List.mem_map.mp hq
      exact hlater t ht
    · exact fun t ht => .inr (hlater t ht)

/-- The tokens of a text cover it. Without blanks they are the same but for the blank ones. -/
theorem tokens_cover (text : String) : IsCover text (tokens text true) ∧
    tokens text false = (tokens text true).filter (·.kind != .blank) := by
  refine ⟨⟨scan_joined _ _, ?_, fun before t after h => ?_, scan_apart _ _⟩, tokens_false text⟩
  · rw [← Position.after_start]
    exact scan_ended _ _
  · rw [← Position.after_start]
    exact scan_located _ _ before t after h

end Source
end ComponentDiagram
