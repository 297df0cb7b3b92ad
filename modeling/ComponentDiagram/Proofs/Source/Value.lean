import ComponentDiagram.Proofs.Source.Cut

/-! The values of tokens. A token's text is cut to this token again, alone and in any company that
blanks or delimiters keep apart. -/
namespace ComponentDiagram.Source

/-- The text is one token of the kind. -/
def Spells (k : TokenKind) (cs : List Char) : Prop :=
  ∃ c tail, cs = c :: tail ∧ isBlank c = false ∧ lexeme c tail = (k, cs)

/-- A token of the kind with the value occurs in some text. -/
def IsValue (k : TokenKind) (value : String) : Prop :=
  ∃ text, ∃ t ∈ tokens text true, t.kind = k ∧ t.text = value

theorem Spells.cut {k : TokenKind} {cs : List Char} (h : Spells k cs) :
    cut cs = [lexemeToken k cs] := by
  obtain ⟨c, tail, rfl, hc, hl⟩ := h
  have hcut := cut_cons_of_lexeme hc hl
  rwa [List.drop_length, cut_nil] at hcut

theorem Spells.cut_append {k : TokenKind} {cs : List Char} (h : Spells k cs) {b : List Char}
    (hb : Apart b) : Source.cut (cs ++ b) = lexemeToken k cs :: Source.cut b := by
  rw [Source.cut_append cs hb, h.cut]
  rfl

theorem Spells.kind_unique {k k' : TokenKind} {cs : List Char} (h : Spells k cs)
    (h' : Spells k' cs) : k = k' := by
  have hcut := h.cut
  rw [h'.cut] at hcut
  exact (Token.mk.inj (List.cons.inj hcut).1).1.symm

/-- A token of a cut. -/
structure IsToken (t : Token) : Prop where
  spells : Spells t.kind t.text.toList
  position : t.position = {}

theorem IsToken.cut {t : Token} (h : IsToken t) : cut t.text.toList = [t] := by
  rw [h.spells.cut, lexemeToken, String.ofList_toList, ← h.position]

theorem Spells.isToken {k : TokenKind} {cs : List Char} (h : Spells k cs) :
    IsToken (lexemeToken k cs) :=
  ⟨by rwa [lexemeToken, String.toList_ofList], rfl⟩

theorem isToken_of_mem_cut {cs : List Char} {t : Token} (h : t ∈ cut cs) : IsToken t := by
  induction cs using cut_induction with
  | nil => cases h
  | blank c rest hc ih => exact ih (by rwa [cut_cons_of_blank hc] at h)
  | lexed c tail more k hc hl hself ih =>
    have hcut := cut_cons_of_lexeme hc hl
    rw [List.length_cons, List.drop_succ_cons, List.drop_left] at hcut
    rw [List.cons_append, hcut] at h
    rcases List.mem_cons.mp h with rfl | h
    · exact Spells.isToken ⟨c, tail, rfl, hc, hself⟩
    · exact ih h

/-- The value of a token, unless it is blank or the end of input, spells this token. -/
theorem IsValue.spells {k : TokenKind} {value : String} (h : IsValue k value)
    (hb : k ≠ .blank) (he : k ≠ .endOfInput) : Spells k value.toList := by
  obtain ⟨text, t, ht, rfl, rfl⟩ := h
  have hmem : t.unplaced ∈ cut text.toList :=
    List.mem_map.mpr ⟨t, List.mem_filter.mpr ⟨ht, by simp [isSubstantial, hb, he]⟩, rfl⟩
  exact (isToken_of_mem_cut hmem).spells

theorem isValue_of_mem_cut {cs : List Char} {t : Token} (h : t ∈ cut cs) :
    IsValue t.kind t.text := by
  obtain ⟨t', ht', rfl⟩ := List.mem_map.mp h
  refine ⟨String.ofList cs, t', ?_, rfl, rfl⟩
  rw [tokens, String.toList_ofList]
  exact (List.mem_filter.mp ht').1

theorem IsToken.isValue {t : Token} (h : IsToken t) : IsValue t.kind t.text :=
  isValue_of_mem_cut (by rw [h.cut]; exact List.mem_singleton.mpr rfl)

theorem isSubstantial_of_mem_cut {cs : List Char} {t : Token} (h : t ∈ cut cs) :
    isSubstantial t = true := by
  obtain ⟨t', ht', rfl⟩ := List.mem_map.mp h
  exact (List.mem_filter.mp ht').2

theorem IsToken.isSubstantial {t : Token} (h : IsToken t) : isSubstantial t = true :=
  isSubstantial_of_mem_cut (by rw [h.cut]; exact List.mem_singleton.mpr rfl)

/-- The values of a kind of token are cut to one token of this kind. -/
theorem isValue_iff {k : TokenKind} {value : String} (hb : k ≠ .blank) (he : k ≠ .endOfInput) :
    IsValue k value ↔ cut value.toList = [⟨k, value, {}⟩] := by
  constructor
  · intro h
    rw [(h.spells hb he).cut, lexemeToken, String.ofList_toList]
  · intro h
    exact isValue_of_mem_cut (t := ⟨k, value, {}⟩) (by rw [h]; exact List.mem_singleton.mpr rfl)

/-! ## Kinds and characters -/

theorem Spells.ne_nil {k : TokenKind} {cs : List Char} (h : Spells k cs) : cs ≠ [] := by
  obtain ⟨c, tail, rfl, -, -⟩ := h
  simp

/-- A boundary character in the text of a token is all of it. -/
theorem Spells.eq_singleton {k : TokenKind} {cs : List Char} (h : Spells k cs) {d : Char}
    (hd : d ∈ cs) (hb : isBoundary d = true) : cs = [d] := by
  obtain ⟨c, tail, rfl, hc, hl⟩ := h
  exact eq_singleton_of_boundary hc hl hd hb

private theorem plain_of_delimiter {c : Char} {k : TokenKind} (h : delimiter? c = some k) :
    isBlank c = false ∧ c ≠ '\n' := by
  unfold delimiter? at h
  split at h <;> cases h <;> decide

theorem spells_of_delimiter {c : Char} {k : TokenKind} (h : delimiter? c = some k) :
    Spells k [c] := by
  have hne := plain_of_delimiter h
  exact ⟨c, [], rfl, hne.1, (lexeme_rule hne.1).mpr (.delimiter hne.2 h)⟩

theorem spells_newline : Spells .newline ['\n'] := ⟨'\n', [], rfl, by decide, by decide⟩

/-- The kinds of the delimiters. -/
def isDelimiterKind : TokenKind → Bool
  | .leftBracket | .rightBracket | .leftBrace | .rightBrace | .atSign | .comma | .colon => true
  | _ => false

private theorem wordKind_not_delimiter (w : List Char) : isDelimiterKind (wordKind w) = false := by
  unfold wordKind
  repeat' split
  all_goals rfl

/-- A token of a delimiter's kind is the delimiter. -/
theorem Spells.delimiter {k : TokenKind} {cs : List Char} (h : Spells k cs)
    (hk : isDelimiterKind k = true) : ∃ c, cs = [c] ∧ delimiter? c = some k := by
  obtain ⟨c, tail, rfl, hc, hl⟩ := h
  have hr := (lexeme_rule hc).mp hl
  generalize hx : c :: tail = x at hr
  cases hr with
  | newline => cases hk
  | delimiter hn hd => exact ⟨c, rfl, hd⟩
  | connector _ hf =>
    have := isConnector_of_connector? hf
    cases k <;> simp_all [isDelimiterKind, TokenKind.isConnector]
  | word => rw [wordKind_not_delimiter] at hk; cases hk
  | number => cases hk
  | other => cases hk

theorem Spells.newline {cs : List Char} (h : Spells .newline cs) : cs = ['\n'] := by
  obtain ⟨c, tail, rfl, hc, hl⟩ := h
  have hr := (lexeme_rule hc).mp hl
  generalize hx : c :: tail = x at hr
  generalize hk : TokenKind.newline = k at hr
  cases hr with
  | newline hn => rw [hn]
  | delimiter hn hd =>
    subst hk
    unfold delimiter? at hd
    split at hd <;> cases hd
  | connector _ hf => subst hk; cases isConnector_of_connector? hf
  | word =>
    unfold wordKind at hk
    repeat' split at hk
    all_goals cases hk
  | number => cases hk
  | other => cases hk

/-- A token that holds a delimiter is of its kind. -/
theorem Spells.kind_of_mem {k k' : TokenKind} {cs : List Char} (h : Spells k cs) {d : Char}
    (hd : d ∈ cs) (hk : delimiter? d = some k') : k = k' := by
  have he := h.eq_singleton hd (boundary_of_delimiter hk)
  rw [he] at h
  exact h.kind_unique (spells_of_delimiter hk)

theorem Spells.newline_of_mem {k : TokenKind} {cs : List Char} (h : Spells k cs)
    (hd : '\n' ∈ cs) : k = .newline := by
  have he := h.eq_singleton hd boundary_newline
  rw [he] at h
  exact h.kind_unique spells_newline

/-- The text of a token stands in the text it was cut from. -/
theorem mem_of_mem_token {cs : List Char} {t : Token} (ht : t ∈ cut cs) {c : Char}
    (hc : c ∈ t.text.toList) : c ∈ cs := by
  induction cs using cut_induction with
  | nil => cases ht
  | blank b rest hb ih => exact List.mem_cons_of_mem b (ih (by rwa [cut_cons_of_blank hb] at ht))
  | lexed b tail more k hb hl _ ih =>
    have hcut := cut_cons_of_lexeme hb hl
    rw [List.length_cons, List.drop_succ_cons, List.drop_left] at hcut
    rw [List.cons_append, hcut] at ht
    rcases List.mem_cons.mp ht with rfl | ht
    · rw [lexemeToken, String.toList_ofList] at hc
      exact List.mem_append_left more hc
    · exact List.mem_append_right _ (ih ht)

private theorem delimiter_unique {c d : Char} {k : TokenKind} (hc : delimiter? c = some k)
    (hd : delimiter? d = some k) : c = d := by
  unfold delimiter? at hc
  split at hc <;> cases hc <;> unfold delimiter? at hd <;> split at hd <;> first | rfl | cases hd

/-- A text without a delimiter has no token of its kind. -/
theorem kind_ne_of_not_mem {cs : List Char} {c : Char} {k : TokenKind}
    (hk : delimiter? c = some k) (hc : c ∉ cs) : ∀ t ∈ cut cs, t.kind ≠ k := by
  intro t ht he
  have hkind : isDelimiterKind k = true := by
    unfold delimiter? at hk
    split at hk <;> cases hk <;> rfl
  obtain ⟨d, hd, hdk⟩ := (isToken_of_mem_cut ht).spells.delimiter (he ▸ hkind)
  rw [he] at hdk
  rw [delimiter_unique hdk hk] at hd
  exact hc (mem_of_mem_token ht (by simp [hd]))

theorem kind_ne_newline {cs : List Char} (hc : '\n' ∉ cs) : ∀ t ∈ cut cs, t.kind ≠ .newline := by
  intro t ht he
  have hs := (isToken_of_mem_cut ht).spells
  rw [he] at hs
  exact hc (mem_of_mem_token ht (by simp [hs.newline]))

/-- A character that is no blank stands in a token. -/
theorem mem_token_of_mem {cs : List Char} {c : Char} (h : c ∈ cs) (hc : isBlank c = false) :
    ∃ t ∈ cut cs, c ∈ t.text.toList := by
  induction cs using cut_induction with
  | nil => cases h
  | blank b rest hb ih =>
    obtain rfl | h := List.mem_cons.mp h
    · rw [hc] at hb
      cases hb
    · rw [cut_cons_of_blank hb]
      exact ih h
  | lexed b tail more k hb hl hself ih =>
    have hcut := cut_cons_of_lexeme hb hl
    rw [List.length_cons, List.drop_succ_cons, List.drop_left] at hcut
    rw [List.cons_append, hcut]
    rcases List.mem_append.mp h with h | h
    · exact ⟨_, List.mem_cons_self .., by rwa [lexemeToken, String.toList_ofList]⟩
    · obtain ⟨t, ht, hmem⟩ := ih h
      exact ⟨t, List.mem_cons_of_mem _ ht, hmem⟩

/-- A text with a line end has a token for it. -/
theorem newline_mem_cut {cs : List Char} (h : '\n' ∈ cs) : ∃ t ∈ cut cs, t.kind = .newline := by
  obtain ⟨t, ht, hmem⟩ := mem_token_of_mem h (by decide)
  exact ⟨t, ht, (isToken_of_mem_cut ht).spells.newline_of_mem hmem⟩

/-- A text with a delimiter has a token for it. -/
theorem delimiter_mem_cut {cs : List Char} {c : Char} {k : TokenKind} (h : c ∈ cs)
    (hk : delimiter? c = some k) : ∃ t ∈ cut cs, t.kind = k := by
  obtain ⟨t, ht, hmem⟩ := mem_token_of_mem h (plain_of_delimiter hk).1
  exact ⟨t, ht, (isToken_of_mem_cut ht).spells.kind_of_mem hmem hk⟩

/-- The first token stands behind blanks, and the other tokens are the cut of what stands behind
it. -/
theorem eq_of_cut_cons {cs : List Char} {t : Token} {ts : List Token} (h : cut cs = t :: ts) :
    ∃ blanks rest, cs = blanks ++ (t.text.toList ++ rest) ∧ (∀ c ∈ blanks, isBlank c = true) ∧
      cut rest = ts := by
  induction cs using cut_induction with
  | nil => cases h
  | blank b rest hb ih =>
    rw [cut_cons_of_blank hb] at h
    obtain ⟨blanks, more, rfl, hblanks, hmore⟩ := ih h
    exact ⟨b :: blanks, more, rfl, List.forall_mem_cons.mpr ⟨hb, hblanks⟩, hmore⟩
  | lexed b tail more k hb hl hself ih =>
    have hcut := cut_cons_of_lexeme hb hl
    rw [List.length_cons, List.drop_succ_cons, List.drop_left] at hcut
    rw [List.cons_append, hcut] at h
    obtain ⟨rfl, rfl⟩ := List.cons.inj h
    exact ⟨[], more, by simp [lexemeToken], by simp, rfl⟩

theorem blank_of_cut_nil {cs : List Char} (h : cut cs = []) : ∀ c ∈ cs, isBlank c = true := by
  intro c hc
  cases hb : isBlank c with
  | true => rfl
  | false =>
    obtain ⟨t, ht, -⟩ := mem_token_of_mem hc hb
    rw [h] at ht
    cases ht

/-! ## Words -/

private theorem wordRun_left {a b : List Char} (h : wordRun (a ++ b) = a ++ b) : wordRun a = a := by
  induction a with
  | nil => rfl
  | cons c a ih =>
    rw [List.cons_append, wordRun] at h
    split at h
    · rename_i hc
      rw [wordRun, if_pos, ih (List.cons.inj h).2]
      simp only [Bool.or_eq_true, Bool.and_eq_true, Bool.not_eq_true'] at hc ⊢
      rcases hc with hc | ⟨hc, ht⟩
      · exact .inl hc
      · refine .inr ⟨hc, ?_⟩
        cases a with
        | nil => rfl
        | cons d a => exact ht
    · cases h

/-- An identifier is a word. -/
theorem Spells.identifier_word {cs : List Char} (h : Spells .identifier cs) :
    ∃ c tail, cs = c :: tail ∧ isBlank c = false ∧ c ≠ '-' ∧ c ≠ '\n' ∧ delimiter? c = none ∧
      (Text.isLetter c || c == '_' || c == '.') = true ∧ wordRun cs = cs := by
  obtain ⟨c, tail, rfl, hc, hl⟩ := h
  have hr := (lexeme_rule hc).mp hl
  generalize hk : TokenKind.identifier = k at hr
  generalize hx : c :: tail = x at hr
  cases hr with
  | newline => cases hk
  | delimiter _ hdel =>
    subst hk
    unfold delimiter? at hdel
    split at hdel <;> cases hdel
  | connector _ hf => subst hk; cases isConnector_of_connector? hf
  | word hdash hline hdel hw => exact ⟨c, tail, hx ▸ rfl, hc, hdash, hline, hdel, hw, hx ▸ hx.symm⟩
  | number => cases hk
  | other => cases hk

/-- An identifier holds no boundary character. -/
theorem Spells.identifier_inner {cs : List Char} (h : Spells .identifier cs) {d : Char}
    (hd : d ∈ cs) : isBoundary d = false := by
  cases hb : isBoundary d with
  | false => rfl
  | true =>
    have he := h.eq_singleton hd hb
    obtain ⟨c, tail, rfl, -, -, -, -, hw, -⟩ := h.identifier_word
    obtain ⟨rfl, -⟩ := List.cons.inj he
    rcases Bool.or_eq_true_iff.mp hw with hw | hw
    · rcases Bool.or_eq_true_iff.mp hw with hw | hw
      · rw [isLetter_of_boundary hb] at hw
        cases hw
      · rw [beq_iff_eq.mp hw] at hb
        cases hb
    · rw [beq_iff_eq.mp hw] at hb
      cases hb

/-- What stands before a dot of an identifier is empty or a word. -/
theorem Spells.before_dot {cs : List Char} (h : Spells .identifier cs) :
    cs.takeWhile (· != '.') = [] ∨
      Spells (wordKind (cs.takeWhile (· != '.'))) (cs.takeWhile (· != '.')) := by
  obtain ⟨c, tail, rfl, hc, hdash, hline, hdel, hw, hrun⟩ := h.identifier_word
  by_cases hdot : c = '.'
  · left
    rw [hdot]
    rfl
  · right
    have htake : (c :: tail).takeWhile (· != '.') = c :: tail.takeWhile (· != '.') :=
      List.takeWhile_cons_of_pos (bne_iff_ne.mpr hdot)
    have hleft : wordRun ((c :: tail).takeWhile (· != '.')) = (c :: tail).takeWhile (· != '.') := by
      refine wordRun_left (b := (c :: tail).dropWhile (· != '.')) ?_
      rwa [List.takeWhile_append_dropWhile]
    rw [htake] at hleft ⊢
    refine ⟨c, _, rfl, hc, (lexeme_rule hc).mpr ?_⟩
    have hrule := @Rule.word c (tail.takeWhile (· != '.')) hdash hline hdel hw
    rwa [hleft] at hrule

/-! ## Numbers and white space -/

/-- A number is digits, perhaps behind a minus sign. -/
theorem Spells.number {cs : List Char} (h : Spells .number cs) :
    ∃ digits, digits ≠ [] ∧ (∀ c ∈ digits, c.isDigit = true) ∧
      (cs = digits ∨ cs = '-' :: digits) := by
  obtain ⟨c, tail, rfl, hc, hl⟩ := h
  have hr := (lexeme_rule hc).mp hl
  generalize hk : TokenKind.number = k at hr
  generalize hx : c :: tail = x at hr
  cases hr with
  | newline => cases hk
  | delimiter _ hdel =>
    subst hk
    unfold delimiter? at hdel
    split at hdel <;> cases hdel
  | connector _ hf => subst hk; cases isConnector_of_connector? hf
  | word => unfold wordKind at hk; repeat' split at hk
            all_goals cases hk
  | number _ _ _ _ hstart =>
    by_cases hdash : c = '-'
    · subst hdash
      obtain ⟨-, htail⟩ := List.cons.inj hx
      refine ⟨tail, ?_, fun d hd => ?_, .inr hx.symm⟩
      · rintro rfl
        cases hstart
      · rw [htail] at hd
        exact List.mem_takeWhile_imp hd
    · have hrun : numberRun (c :: tail) = (c :: tail).takeWhile Char.isDigit := by
        rw [numberRun]
        rintro rest he
        exact hdash (List.cons.inj he).1
      refine ⟨c :: tail, by simp, fun d hd => ?_, .inl hx.symm⟩
      rw [hx, hrun] at hd
      exact List.mem_takeWhile_imp hd
  | other => cases hk

theorem delimiter?_of_whitespace {c : Char} (h : Text.isWhitespace c = true) :
    delimiter? c = none := by
  cases hd : delimiter? c with
  | none => rfl
  | some k =>
    unfold delimiter? at hd
    split at hd <;> first | cases h | cases hd

/-- White space that is no blank and no line end has no meaning. -/
theorem spells_whitespace {c : Char} (h : Text.isWhitespace c = true) (hb : isBlank c = false)
    (hn : c ≠ '\n') : Spells .other [c] := by
  have hboundary := boundary_of_whitespace h
  have hne (d : Char) (hd : isBoundary d = false) : c ≠ d := by
    rintro rfl
    cases hboundary.symm.trans hd
  have hdash : c ≠ '-' := hne '-' (by decide)
  have hletter : (Text.isLetter c || c == '_' || c == '.') = false := by
    simp [isLetter_of_boundary hboundary, hne '_' (by decide), hne '.' (by decide)]
  have hnumber : startsNumber [c] = false := by
    simp [startsNumber, isDigit_of_boundary hboundary]
  exact ⟨c, [], rfl, hb, (lexeme_rule hb).mpr (.other hn (delimiter?_of_whitespace h)
    (connector?_of_ne_dash hdash []) hletter hnumber)⟩

/-! ## Tokens in a row -/

theorem apart_space (cs : List Char) : Apart (' ' :: cs) := boundary_of_blank (by decide)

theorem apart_newline (cs : List Char) : Apart ('\n' :: cs) := boundary_newline

theorem cut_space (cs : List Char) : cut (' ' :: cs) = cut cs := cut_cons_of_blank (by decide) cs

theorem cut_newline (cs : List Char) : cut ('\n' :: cs) = lexemeToken .newline ['\n'] :: cut cs :=
  cut_cons_of_lexeme (by decide) ((lexeme_rule (by decide)).mpr (.newline rfl))

theorem cut_delimiter {c : Char} {k : TokenKind} (h : delimiter? c = some k) (cs : List Char) :
    cut (c :: cs) = lexemeToken k [c] :: cut cs := by
  have hne := plain_of_delimiter h
  exact cut_cons_of_lexeme hne.1 ((lexeme_rule hne.1).mpr (.delimiter hne.2 h))

/-- What a space divides is cut apart. -/
theorem cut_append_space (a b : List Char) : cut (a ++ ' ' :: b) = cut a ++ cut b := by
  rw [cut_append a (apart_space b), cut_space]

theorem cut_join (ws : List (List Char)) : cut ([' '].intercalate ws) = ws.flatMap cut := by
  induction ws with
  | nil => rfl
  | cons w ws ih =>
    cases ws with
    | nil => simp [List.intercalate_singleton]
    | cons v ws =>
      rw [List.intercalate_cons_cons, List.append_assoc, List.singleton_append, cut_append_space, ih]
      rfl

/-- Tokens with a space between any two are cut apart again. -/
theorem cut_intercalate (ts : List Token) (h : ∀ t ∈ ts, IsToken t) :
    cut ([' '].intercalate (ts.map fun t => t.text.toList)) = ts := by
  rw [cut_join, List.flatMap_map]
  induction ts with
  | nil => rfl
  | cons t ts ih =>
    obtain ⟨ht, hts⟩ := List.forall_mem_cons.mp h
    rw [List.flatMap_cons, ih hts, ht.cut]
    rfl

end ComponentDiagram.Source
