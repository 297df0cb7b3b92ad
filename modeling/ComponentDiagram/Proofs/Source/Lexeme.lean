import ComponentDiagram.Source.Scan
import ComponentDiagram.Text.Lines
import Mathlib

/-! Where a lexeme ends. A boundary character belongs to no lexeme begun before it, and no rule
looks past it, so a text may be cut in front of one without changing a lexeme. -/
namespace ComponentDiagram.Source

/-- A character that no lexeme can go on with, and that no lexeme is decided by. -/
def isBoundary (c : Char) : Bool :=
  !(Text.isAlphanumeric c || c == '_' || c == '.' || c == '-' || c == '>' || c == '(' || c == ')')

/-- A text that what stands before it cannot run into. -/
def Apart : List Char → Prop
  | [] => True
  | c :: _ => isBoundary c = true

private theorem boundary_ne {c : Char} (h : isBoundary c = true) :
    Text.isAlphanumeric c = false ∧ c ≠ '_' ∧ c ≠ '.' ∧ c ≠ '-' ∧ c ≠ '>' ∧ c ≠ '(' ∧ c ≠ ')' := by
  simpa [isBoundary, and_assoc] using h

theorem isDigit_of_boundary {c : Char} (h : isBoundary c = true) : c.isDigit = false := by
  have hc := (boundary_ne h).1
  rw [Text.isAlphanumeric, Char.isAlphanum] at hc
  simp only [Bool.or_eq_false_iff] at hc
  exact hc.1.1.2

theorem isLetter_of_boundary {c : Char} (h : isBoundary c = true) : Text.isLetter c = false := by
  cases hl : Text.isLetter c with
  | false => rfl
  | true => rw [← (boundary_ne h).1, Text.isAlphanumeric_of_isLetter c hl]

private theorem boundary_of_ascii {c : Char} (hc : c.toNat < 128) (ha : c.isAlphanum = false)
    (hs : (c == '_' || c == '.' || c == '-' || c == '>' || c == '(' || c == ')') = false) :
    isBoundary c = true := by
  rw [isBoundary, Text.isAlphanumeric, ha, Text.inUpperRanges_eq_false_of_ascii _ _ hc,
    Text.inUpperRanges_eq_false_of_ascii _ _ hc]
  simpa [Bool.or_assoc] using hs

theorem boundary_of_blank {c : Char} (h : isBlank c = true) : isBoundary c = true := by
  simp only [isBlank, Bool.or_eq_true, beq_iff_eq] at h
  rcases h with (rfl | rfl) | rfl <;> exact boundary_of_ascii (by decide) (by decide) (by decide)

/-- The white space beyond ASCII. -/
private def upperBlanks : List Nat :=
  [0x85, 0xA0, 0x1680, 0x2000, 0x2001, 0x2002, 0x2003, 0x2004, 0x2005, 0x2006, 0x2007, 0x2008,
    0x2009, 0x200A, 0x2028, 0x2029, 0x202F, 0x205F, 0x3000]

private theorem upperBlanks_apart : ∀ n ∈ upperBlanks,
    Text.inRanges Text.letterRanges n = false ∧ Text.inRanges Text.numeralRanges n = false := by
  decide +kernel

private theorem isAlphanum_of_code {c : Char} (h : c.isAlphanum = true) :
    48 ≤ c.toNat ∧ c.toNat ≤ 122 := by
  have hc : c.toNat = c.val.toNat := rfl
  simp only [Char.isAlphanum, Char.isAlpha, Char.isUpper, Char.isLower, Char.isDigit,
    Bool.or_eq_true, Bool.and_eq_true, decide_eq_true_eq, UInt32.le_iff_toNat_le] at h
  have hA : ('A' : Char).val.toNat = 65 := rfl
  have hZ : ('Z' : Char).val.toNat = 90 := rfl
  have ha : ('a' : Char).val.toNat = 97 := rfl
  have hz : ('z' : Char).val.toNat = 122 := rfl
  have h0 : ('0' : Char).val.toNat = 48 := rfl
  have h9 : ('9' : Char).val.toNat = 57 := rfl
  omega

theorem boundary_of_whitespace {c : Char} (h : Text.isWhitespace c = true) :
    isBoundary c = true := by
  have hcode : (9 ≤ c.toNat ∧ c.toNat ≤ 32) ∨ c.toNat ∈ upperBlanks := by
    simp only [Text.isWhitespace, Bool.or_eq_true, Bool.and_eq_true, decide_eq_true_eq,
      beq_iff_eq] at h
    simp only [upperBlanks, List.mem_cons, List.not_mem_nil, or_false]
    omega
  have hne {d : Char} (hd : 33 ≤ d.toNat ∧ d.toNat ≤ 127) : (c == d) = false := by
    rw [beq_eq_false_iff_ne]
    rintro rfl
    rcases hcode with hcode | hcode
    · omega
    · simp only [upperBlanks, List.mem_cons, List.not_mem_nil, or_false] at hcode
      omega
  have ha : Text.isAlphanumeric c = false := by
    have hnum : c.isAlphanum = false := by
      cases hb : c.isAlphanum with
      | false => rfl
      | true =>
        have := isAlphanum_of_code hb
        rcases hcode with hcode | hcode
        · omega
        · simp only [upperBlanks, List.mem_cons, List.not_mem_nil, or_false] at hcode
          omega
    rcases hcode with hcode | hcode
    · have hlow : c.toNat < 128 := by omega
      rw [Text.isAlphanumeric, hnum, Text.inUpperRanges_eq_false_of_ascii _ _ hlow,
        Text.inUpperRanges_eq_false_of_ascii _ _ hlow]
      rfl
    · obtain ⟨hl, hn⟩ := upperBlanks_apart _ hcode
      simp [Text.isAlphanumeric, hnum, Text.inUpperRanges, hl, hn]
  simp only [isBoundary, ha, hne (d := '_') (by decide), hne (d := '.') (by decide),
    hne (d := '-') (by decide), hne (d := '>') (by decide), hne (d := '(') (by decide),
    hne (d := ')') (by decide), Bool.or_false, Bool.not_false]

theorem boundary_newline : isBoundary '\n' = true :=
  boundary_of_ascii (by decide) (by decide) (by decide)

theorem boundary_of_delimiter {c : Char} {k : TokenKind} (h : delimiter? c = some k) :
    isBoundary c = true := by
  unfold delimiter? at h
  split at h <;> first | exact boundary_of_ascii (by decide) (by decide) (by decide) | cases h

theorem wordRun_append {b : List Char} (hb : Apart b) (a : List Char) :
    wordRun (a ++ b) = wordRun a := by
  induction a with
  | nil =>
    cases b with
    | nil => rfl
    | cons c rest =>
      obtain ⟨ha, hu, hd, hm, -⟩ := boundary_ne hb
      simp [wordRun, ha, hu, hd, hm]
  | cons c a ih =>
    have ht : startsConnectorTail (a ++ b) = startsConnectorTail a := by
      cases a with
      | cons => rfl
      | nil =>
        cases b with
        | nil => rfl
        | cons d rest =>
          obtain ⟨-, -, -, -, hg, ho, hc⟩ := boundary_ne hb
          simp [startsConnectorTail, hg, ho, hc]
    simp only [List.cons_append, wordRun, ht, ih]

private theorem takeWhile_append {p : Char → Bool} {b : List Char}
    (hb : ∀ c ∈ b.head?, p c = false) (a : List Char) :
    (a ++ b).takeWhile p = a.takeWhile p := by
  induction a with
  | nil => cases b <;> simp_all
  | cons c a ih => simp only [List.cons_append, List.takeWhile_cons, ih]

private theorem dropWhile_append {p : Char → Bool} {b : List Char}
    (hb : ∀ c ∈ b.head?, p c = false) (a : List Char) :
    (a ++ b).dropWhile p = a.dropWhile p ++ b := by
  induction a with
  | nil => cases b <;> simp_all
  | cons c a ih =>
    simp only [List.cons_append, List.dropWhile_cons, ih]
    split <;> rfl

theorem blankRun_append {b : List Char} (hb : ∀ c ∈ b.head?, isBlank c = false) (a : List Char) :
    blankRun (a ++ b) = blankRun a :=
  takeWhile_append hb a

private theorem apart_head {b : List Char} (hb : Apart b) {p : Char → Bool}
    (hp : ∀ c, isBoundary c = true → p c = false) : ∀ c ∈ b.head?, p c = false := by
  cases b with
  | nil => simp
  | cons d rest => simpa using hp d hb

private theorem inner_of_all {x : List Char} (h : x.all (fun c => !isBoundary c) = true) :
    ∀ c ∈ x, isBoundary c = false := by
  simpa using h

theorem isPrefixOf_append {b : List Char} (hb : Apart b) (part a : List Char)
    (hp : ∀ c ∈ part, isBoundary c = false) : part.isPrefixOf (a ++ b) = part.isPrefixOf a := by
  induction part generalizing a with
  | nil => simp
  | cons x part ih =>
    cases a with
    | cons c a => simp [List.isPrefixOf, ih a fun c hc => hp c (List.mem_cons_of_mem x hc)]
    | nil =>
      cases b with
      | nil => rfl
      | cons d rest =>
        have hd : isBoundary d = true := hb
        have hx : x ≠ d := fun he => by simp [he ▸ hp x (List.mem_cons_self ..)] at hd
        simp [List.isPrefixOf, hx]

theorem match?_append {b : List Char} (hb : Apart b) (c : Char) (a : List Char) :
    InterfaceSymbol.match? (c :: a ++ b) = InterfaceSymbol.match? (c :: a) := by
  have hp : ∀ c ∈ b.head?, InterfaceSymbol.isParenthesis c = false := apart_head hb fun c hc => by
    obtain ⟨-, -, -, -, -, ho, hcl⟩ := boundary_ne hc
    simp [InterfaceSymbol.isParenthesis, ho, hcl]
  by_cases hc : c = '-'
  · subst hc
    simp only [List.cons_append, InterfaceSymbol.match?, takeWhile_append hp, dropWhile_append hp]
    split
    · rfl
    · cases a.dropWhile InterfaceSymbol.isParenthesis with
      | cons d rest => simp only [List.cons_append]; split <;> simp_all
      | nil =>
        cases b with
        | nil => rfl
        | cons d rest => simp [(boundary_ne hb).2.2.2.1]
  · simp [InterfaceSymbol.match?, hc]

theorem connector?_append {b : List Char} (hb : Apart b) (c : Char) (a : List Char) :
    connector? (c :: a ++ b) = connector? (c :: a) := by
  simp only [connector?, match?_append hb,
    isPrefixOf_append hb delegateArrow (c :: a) (inner_of_all (by decide)),
    isPrefixOf_append hb ['-', '-', '>'] (c :: a) (inner_of_all (by decide)),
    isPrefixOf_append hb ['-', '>'] (c :: a) (inner_of_all (by decide))]

theorem startsNumber_append {b : List Char} (hb : Apart b) (c : Char) (a : List Char) :
    startsNumber (c :: a ++ b) = startsNumber (c :: a) := by
  cases a with
  | cons d a =>
    by_cases hc : c = '-'
    · subst hc; rfl
    · simp [startsNumber, hc]
  | nil =>
    cases b with
    | nil => rfl
    | cons d rest =>
      by_cases hc : c = '-'
      · subst hc; simp [startsNumber, isDigit_of_boundary hb]
      · simp [startsNumber, hc]

theorem numberRun_append {b : List Char} (hb : Apart b) (c : Char) (a : List Char) :
    numberRun (c :: a ++ b) = numberRun (c :: a) := by
  have hd : ∀ c ∈ b.head?, c.isDigit = false := apart_head hb fun c => isDigit_of_boundary
  by_cases hc : c = '-'
  · subst hc; simp [numberRun, takeWhile_append hd]
  · have hr (r : List Char) : numberRun (c :: r) = (c :: r).takeWhile Char.isDigit := by
      simp [numberRun, hc]
    rw [List.cons_append, hr, hr, ← List.cons_append, takeWhile_append hd]

/-- What stands apart from a text does not change the lexeme in front of it. -/
theorem lexeme_append {b : List Char} (hb : Apart b) {c : Char} (hc : isBlank c = false)
    (a : List Char) : lexeme c (a ++ b) = lexeme c a := by
  simp only [lexeme, hc, ← List.cons_append, connector?_append hb, wordRun_append hb,
    startsNumber_append hb, numberRun_append hb]
  simp

/-! ## The text of a lexeme -/

theorem wordRun_prefix (cs : List Char) : wordRun cs <+: cs := by
  induction cs with
  | nil => exact List.prefix_rfl
  | cons c rest ih =>
    rw [wordRun]
    split
    · exact (List.prefix_cons_inj c).mpr ih
    · exact List.nil_prefix

theorem wordRun_idem (cs : List Char) : wordRun (wordRun cs) = wordRun cs := by
  induction cs with
  | nil => rfl
  | cons c rest ih =>
    by_cases h : (Text.isAlphanumeric c || c == '_' || c == '.' ||
        (c == '-' && !startsConnectorTail rest)) = true
    · -- the rest of the run is a start of the rest, so it shows a dash no other character
      have ht : startsConnectorTail rest = false → startsConnectorTail (wordRun rest) = false := by
        intro hr
        obtain ⟨more, hm⟩ := wordRun_prefix rest
        cases hw : wordRun rest with
        | nil => rfl
        | cons d tail =>
          rw [← hm, hw] at hr
          exact hr
      have h' : (Text.isAlphanumeric c || c == '_' || c == '.' ||
          (c == '-' && !startsConnectorTail (wordRun rest))) = true := by
        simp only [Bool.or_eq_true, Bool.and_eq_true, Bool.not_eq_true'] at h ⊢
        exact h.imp_right fun ⟨hc, hr⟩ => ⟨hc, ht hr⟩
      rw [wordRun, if_pos h, wordRun, if_pos h', ih]
    · rw [wordRun, if_neg h]
      rfl

private theorem delegateArrow_eq : delegateArrow =
    ['-', '>', 'd', 'e', 'l', 'e', 'g', 'a', 't', 'e', '-', '>'] := by decide

theorem connector?_of_ne_dash {c : Char} (hc : c ≠ '-') (rest : List Char) :
    connector? (c :: rest) = none := by
  rw [connector?, delegateArrow_eq]
  simp [List.isPrefixOf, InterfaceSymbol.match?, hc, Ne.symm hc]

theorem match?_eq_some {cs x : List Char} (h : InterfaceSymbol.match? cs = some x) :
    ∃ p inner, x = '-' :: p :: inner ++ ['-'] ∧
      (∀ c ∈ p :: inner, InterfaceSymbol.isParenthesis c = true) ∧ x <+: cs := by
  cases cs with
  | nil => cases h
  | cons d rest =>
    by_cases hd : d = '-'
    · subst hd
      simp only [InterfaceSymbol.match?] at h
      have hr := List.takeWhile_append_dropWhile (p := InterfaceSymbol.isParenthesis) (l := rest)
      cases hi : rest.takeWhile InterfaceSymbol.isParenthesis with
      | nil => simp [hi] at h
      | cons p inner =>
        rw [hi] at h hr
        cases hm : rest.dropWhile InterfaceSymbol.isParenthesis with
        | nil => simp [hm] at h
        | cons e more =>
          rw [hm] at h hr
          by_cases he : e = '-'
          · subst he
            simp only [List.isEmpty_cons, Bool.false_eq_true, if_false, Option.some.injEq] at h
            refine ⟨p, inner, h.symm, ?_, more, ?_⟩
            · intro c hc
              exact List.mem_takeWhile_imp (hi ▸ hc)
            · rw [← h, ← hr]
              simp
          · simp [he] at h
    · simp [InterfaceSymbol.match?, hd] at h

private theorem takeWhile_all {p : Char → Bool} {a b : List Char} (ha : ∀ c ∈ a, p c = true)
    (hb : ∀ c ∈ b.head?, p c = false) : (a ++ b).takeWhile p = a ∧ (a ++ b).dropWhile p = b := by
  rw [takeWhile_append hb, dropWhile_append hb]
  exact ⟨List.takeWhile_eq_self_iff.mpr ha, by rw [List.dropWhile_eq_nil_iff.mpr ha, List.nil_append]⟩

/-- An interface symbol is one also when it stands alone. -/
theorem match?_self {cs x : List Char} (h : InterfaceSymbol.match? cs = some x) :
    InterfaceSymbol.match? x = some x := by
  obtain ⟨p, inner, rfl, hpar, -⟩ := match?_eq_some h
  have hrun := takeWhile_all (b := ['-']) hpar (by simp [InterfaceSymbol.isParenthesis])
  simp only [InterfaceSymbol.match?, List.cons_append] at hrun ⊢
  rw [hrun.1, hrun.2]
  simp

/-- The parenthesis behind its dash keeps an interface symbol from being an arrow. -/
theorem connector?_of_match? {cs x : List Char} (h : InterfaceSymbol.match? cs = some x) :
    connector? cs = some (.interfaceConnector, x) := by
  obtain ⟨p, inner, rfl, hpar, ⟨more, rfl⟩⟩ := match?_eq_some h
  have hp : p = '(' ∨ p = ')' := by
    simpa [InterfaceSymbol.isParenthesis] using hpar p (List.mem_cons_self ..)
  rw [connector?, delegateArrow_eq, h]
  rcases hp with rfl | rfl <;> simp [List.isPrefixOf]

/-- A connector is a connector also when it stands alone. -/
theorem connector?_self {cs x : List Char} {k : TokenKind} (h : connector? cs = some (k, x)) :
    connector? x = some (k, x) ∧ x <+: cs := by
  unfold connector? at h
  split at h
  · rename_i hp
    cases h
    exact ⟨by decide, List.isPrefixOf_iff_prefix.mp hp⟩
  split at h
  · rename_i hp
    cases h
    exact ⟨by decide, List.isPrefixOf_iff_prefix.mp hp⟩
  split at h
  · rename_i hp
    cases h
    exact ⟨by decide, List.isPrefixOf_iff_prefix.mp hp⟩
  obtain ⟨mark, hm, he⟩ := Option.map_eq_some_iff.mp h
  cases he
  obtain ⟨-, -, -, -, hpre⟩ := match?_eq_some hm
  exact ⟨connector?_of_match? (match?_self hm), hpre⟩

/-- The rules for what starts no blank, in the order in which they are tried. -/
inductive Rule (c : Char) (rest : List Char) : TokenKind → List Char → Prop
  | newline : c = '\n' → Rule c rest .newline [c]
  | delimiter {k} : c ≠ '\n' → delimiter? c = some k → Rule c rest k [c]
  | connector {k x} : c = '-' → connector? (c :: rest) = some (k, x) → Rule c rest k x
  | word : c ≠ '-' → c ≠ '\n' → delimiter? c = none →
      (Text.isLetter c || c == '_' || c == '.') = true →
      Rule c rest (wordKind (wordRun (c :: rest))) (wordRun (c :: rest))
  | number : c ≠ '\n' → delimiter? c = none → connector? (c :: rest) = none →
      (Text.isLetter c || c == '_' || c == '.') = false → startsNumber (c :: rest) = true →
      Rule c rest .number (numberRun (c :: rest))
  | other : c ≠ '\n' → delimiter? c = none → connector? (c :: rest) = none →
      (Text.isLetter c || c == '_' || c == '.') = false → startsNumber (c :: rest) = false →
      Rule c rest .other [c]

private theorem not_letter_dash : (Text.isLetter '-' || '-' == '_' || '-' == '.') = false := by
  decide

theorem lexeme_rule {c : Char} {rest x : List Char} {k : TokenKind} (hc : isBlank c = false) :
    lexeme c rest = (k, x) ↔ Rule c rest k x := by
  simp only [lexeme, hc, Bool.false_eq_true, if_false]
  constructor
  · intro h
    split at h
    · rename_i hn
      cases h
      exact .newline hn
    · rename_i hn
      split at h
      · rename_i kind hd
        cases h
        exact .delimiter hn hd
      · rename_i hd
        split at h
        · rename_i found hf
          subst h
          refine .connector ?_ hf
          refine Decidable.byContradiction fun hm => ?_
          rw [connector?_of_ne_dash hm] at hf
          cases hf
        · rename_i hf
          split at h
          · rename_i hw
            cases h
            refine .word (fun hm => ?_) hn hd hw
            rw [hm, not_letter_dash] at hw
            cases hw
          · rename_i hw
            rw [Bool.not_eq_true] at hw
            split at h
            · rename_i hnum
              cases h
              exact .number hn hd hf hw hnum
            · rename_i hnum
              cases h
              exact .other hn hd hf hw (by simpa using hnum)
  · intro h
    cases h with
    | newline hn => simp [hn]
    | delimiter hn hd => simp [hn, hd]
    | connector hm hf =>
      subst hm
      simp [delimiter?, hf]
    | word hm hn hd hw => simp only [hn, hd, connector?_of_ne_dash hm, hw, if_true, if_false]
    | number hn hd hf hw hnum => simp [hn, hd, hf, hw, hnum]
    | other hn hd hf hw hnum => simp [hn, hd, hf, hw, hnum]

private theorem wordRun_cons {c : Char} (h : (Text.isLetter c || c == '_' || c == '.') = true)
    (rest : List Char) : wordRun (c :: rest) = c :: wordRun rest := by
  have ha : (Text.isAlphanumeric c || c == '_' || c == '.' ||
      (c == '-' && !startsConnectorTail rest)) = true := by
    simp only [Bool.or_eq_true] at h ⊢
    exact .inl (h.imp_left (Or.imp_left (Text.isAlphanumeric_of_isLetter c)))
  rw [wordRun, if_pos ha]

private theorem numberRun_prefix {c : Char} {rest : List Char}
    (h : startsNumber (c :: rest) = true) : ∃ tail, numberRun (c :: rest) = c :: tail ∧
      tail <+: rest ∧ startsNumber (c :: tail) = true ∧ numberRun (c :: tail) = c :: tail ∧
      ∀ d ∈ tail, d.isDigit = true := by
  have hd (cs : List Char) : ∀ d ∈ cs.takeWhile Char.isDigit, d.isDigit = true :=
    fun d hd => List.mem_takeWhile_imp hd
  refine ⟨rest.takeWhile Char.isDigit, ?_, List.takeWhile_prefix _, ?_, ?_, hd rest⟩
  all_goals by_cases hc : c = '-'
  · subst hc; rfl
  · have hdc : c.isDigit = true := by simpa [startsNumber, hc] using h
    simp [numberRun, hc, hdc]
  · subst hc
    cases rest with
    | nil => cases h
    | cons d rest =>
      have hdd : d.isDigit = true := h
      simp [startsNumber, hdd]
  · simpa [startsNumber, hc] using h
  · subst hc
    rw [numberRun, List.takeWhile_eq_self_iff.mpr (hd rest)]
  · have hdc : c.isDigit = true := by simpa [startsNumber, hc] using h
    simp [numberRun, hc, hdc, List.takeWhile_eq_self_iff.mpr (hd rest)]

theorem connector?_of_digit {d : Char} (hd : d.isDigit = true) (rest : List Char) :
    connector? ('-' :: d :: rest) = none := by
  have hne : d ≠ '-' ∧ d ≠ '>' ∧ InterfaceSymbol.isParenthesis d = false := by
    refine ⟨?_, ?_, ?_⟩
    · rintro rfl; cases hd
    · rintro rfl; cases hd
    · cases hpar : InterfaceSymbol.isParenthesis d with
      | false => rfl
      | true =>
        have : d = '(' ∨ d = ')' := by simpa [InterfaceSymbol.isParenthesis] using hpar
        rcases this with rfl | rfl <;> cases hd
  rw [connector?, delegateArrow_eq]
  simp [List.isPrefixOf, InterfaceSymbol.match?, hne.1.symm, hne.2.1.symm, hne.2.2]

/-- A lexeme is a start of the text, and it is the same lexeme when it stands alone. -/
theorem lexeme_self {c : Char} {rest x : List Char} {k : TokenKind} (hc : isBlank c = false)
    (h : lexeme c rest = (k, x)) :
    ∃ tail, x = c :: tail ∧ tail <+: rest ∧ lexeme c tail = (k, c :: tail) := by
  rw [lexeme_rule hc] at h
  cases h with
  | newline hn => exact ⟨[], rfl, List.nil_prefix, (lexeme_rule hc).mpr (.newline hn)⟩
  | delimiter hn hd => exact ⟨[], rfl, List.nil_prefix, (lexeme_rule hc).mpr (.delimiter hn hd)⟩
  | connector hm hf =>
    obtain ⟨hself, more, hx⟩ := connector?_self hf
    cases x with
    | nil => cases hself
    | cons d tail =>
      obtain ⟨rfl, hrest⟩ := List.cons.inj hx
      exact ⟨tail, rfl, ⟨more, hrest⟩, (lexeme_rule hc).mpr (.connector hm hself)⟩
  | word hm hn hd hw =>
    have hrun := wordRun_cons hw (wordRun rest)
    rw [wordRun_idem] at hrun
    refine ⟨wordRun rest, wordRun_cons hw rest, wordRun_prefix rest, (lexeme_rule hc).mpr ?_⟩
    have hword := @Rule.word c (wordRun rest) hm hn hd hw
    rw [hrun] at hword
    rw [wordRun_cons hw]
    exact hword
  | number hn hd hf hw hnum =>
    obtain ⟨tail, hx, hp, hs, hr, hdig⟩ := numberRun_prefix hnum
    refine ⟨tail, hx, hp, (lexeme_rule hc).mpr ?_⟩
    have hconn : connector? (c :: tail) = none := by
      by_cases hm : c = '-'
      · subst hm
        cases tail with
        | nil => cases hs
        | cons d tail => exact connector?_of_digit hs tail
      · exact connector?_of_ne_dash hm tail
    have hnumber := @Rule.number c tail hn hd hconn hw hs
    rw [hr] at hnumber
    exact hnumber
  | other hn hd hf hw hnum =>
    refine ⟨[], rfl, List.nil_prefix, (lexeme_rule hc).mpr (.other hn hd ?_ hw ?_)⟩
    · by_cases hm : c = '-'
      · subst hm; decide
      · exact connector?_of_ne_dash hm []
    · by_cases hm : c = '-'
      · subst hm; rfl
      · simpa [startsNumber, hm] using hnum

private theorem wordRun_inner {cs : List Char} {d : Char} (h : d ∈ wordRun cs) :
    isBoundary d = false := by
  induction cs with
  | nil => cases h
  | cons c rest ih =>
    rw [wordRun] at h
    split at h
    · rename_i hc
      rcases List.mem_cons.mp h with rfl | ht
      · simp only [Bool.or_eq_true, Bool.and_eq_true, beq_iff_eq] at hc
        rcases hc with ((ha | rfl) | rfl) | ⟨rfl, -⟩
        · simp [isBoundary, ha]
        all_goals decide
      · exact ih ht
    · cases h

private theorem connector_inner {cs x : List Char} {k : TokenKind}
    (h : connector? cs = some (k, x)) : ∀ d ∈ x, isBoundary d = false := by
  unfold connector? at h
  split at h
  · cases h; exact inner_of_all (by decide)
  split at h
  · cases h; exact inner_of_all (by decide)
  split at h
  · cases h; exact inner_of_all (by decide)
  obtain ⟨mark, hm, he⟩ := Option.map_eq_some_iff.mp h
  cases he
  obtain ⟨p, inner, rfl, hpar, -⟩ := match?_eq_some hm
  intro d hd
  simp only [List.cons_append, List.mem_cons, List.mem_append, List.not_mem_nil, or_false] at hd
  have hdash : isBoundary '-' = false := by decide
  have hparen : InterfaceSymbol.isParenthesis d = true → isBoundary d = false := by
    intro hp
    have : d = '(' ∨ d = ')' := by simpa [InterfaceSymbol.isParenthesis] using hp
    rcases this with rfl | rfl <;> decide
  rcases hd with rfl | rfl | hd | rfl
  · exact hdash
  · exact hparen (hpar d (List.mem_cons_self ..))
  · exact hparen (hpar d (List.mem_cons_of_mem _ hd))
  · exact hdash

/-- A boundary character is a lexeme of its own. -/
theorem eq_singleton_of_boundary {c : Char} {rest x : List Char} {k : TokenKind}
    (hc : isBlank c = false) (h : lexeme c rest = (k, x)) {d : Char} (hd : d ∈ x)
    (hb : isBoundary d = true) : x = [d] := by
  rw [lexeme_rule hc] at h
  cases h with
  | newline => rw [List.mem_singleton.mp hd]
  | delimiter => rw [List.mem_singleton.mp hd]
  | other => rw [List.mem_singleton.mp hd]
  | connector _ hf => rw [connector_inner hf d hd] at hb; cases hb
  | word => rw [wordRun_inner hd] at hb; cases hb
  | number _ _ _ _ hnum =>
    obtain ⟨tail, hx, -, -, -, hdig⟩ := numberRun_prefix hnum
    rw [hx] at hd
    rcases List.mem_cons.mp hd with rfl | ht
    · by_cases hm : d = '-'
      · subst hm; cases hb
      · rw [startsNumber] at hnum
        · rw [isDigit_of_boundary hb] at hnum; cases hnum
        · rintro _ _ rfl; exact absurd rfl hm
    · exact absurd (hdig d ht) (by simp [isDigit_of_boundary hb])

end ComponentDiagram.Source
