import ComponentDiagram.Print.Positions
import ComponentDiagram.Proofs.Print.Lexemes

/-! The line of a component's head, in the parts that are told apart when its position is
rewritten. -/
namespace ComponentDiagram.Print
open Source

/-! ## The name -/

theorem blank_indent (depth : Nat) : ∀ c ∈ (indent depth).toList, Text.isWhitespace c = true := by
  rw [indent, String.toList_ofList]
  intro c hc
  rw [List.eq_of_mem_replicate hc]
  decide

private theorem takeWhile_indent (depth : Nat) {c : Char} (hc : Text.isWhitespace c = false)
    (cs : List Char) :
    ((indent depth).toList ++ c :: cs).takeWhile Text.isWhitespace = (indent depth).toList := by
  rw [List.takeWhile_append_of_pos (blank_indent depth), List.takeWhile_cons_of_neg (by simp [hc]),
    List.append_nil]

private theorem dropWhile_indent (depth : Nat) {c : Char} (hc : Text.isWhitespace c = false)
    (cs : List Char) :
    ((indent depth).toList ++ c :: cs).dropWhile Text.isWhitespace = c :: cs := by
  rw [List.dropWhile_append_of_pos (blank_indent depth), List.dropWhile_cons_of_neg (by simp [hc])]

/-- A line that starts with no bracket is no node line. -/
theorem nodeLine?_other (depth : Nat) {c : Char} (hc : Text.isWhitespace c = false) (hb : c ≠ '[')
    (cs : List Char) : nodeLine? ((indent depth).toList ++ c :: cs) = none := by
  rw [nodeLine?, dropWhile_indent depth hc]
  simp only
  split
  · rename_i he
    exact absurd (List.cons.inj he).1 hb
  · rfl

/-- An identifier is read up to the bracket behind it. -/
theorem nodeLine?_head (depth : Nat) {id : String} (h : IsIdentifier id) (rest : List Char) :
    nodeLine? ((indent depth).toList ++ '[' :: (id.toList ++ ']' :: rest)) =
      some ⟨(indent depth).toList, id.toList, rest⟩ := by
  have hopen : Text.isWhitespace '[' = false := by decide
  have hspells := h.spells (by decide) (by decide)
  have hall : ∀ c ∈ id.toList, (c != ']' && !Text.isWhitespace c) = true := by
    intro c hc
    have hinner := hspells.identifier_inner hc
    rw [Bool.and_eq_true, bne_iff_ne, Bool.not_eq_true']
    refine ⟨?_, ?_⟩
    · rintro rfl
      cases hinner
    · cases hw : Text.isWhitespace c with
      | false => rfl
      | true =>
        rw [boundary_of_whitespace hw] at hinner
        cases hinner
  rw [nodeLine?, takeWhile_indent depth hopen, dropWhile_indent depth hopen]
  simp only [List.takeWhile_append_of_pos hall, List.dropWhile_append_of_pos hall]
  obtain ⟨c, cs, hid⟩ := List.exists_cons_of_ne_nil hspells.ne_nil
  rw [hid]
  simp

/-! ## The position -/

private theorem decimal_of_isDigit {c : Char} (h : c.isDigit = true) :
    Text.isDecimalDigit c = true := by
  rw [Text.isDecimalDigit, h, Bool.true_or]

/-- What can stand behind a number without being read as a part of it. -/
def EndsNumber (rest : List Char) : Prop :=
  ∀ c ∈ rest.head?, Text.isDecimalDigit c = false ∧ c ≠ '.'

/-- Digits are passed, whether a minus sign stands before them or not. -/
private theorem afterNumber?_digits {digits rest : List Char} (hne : digits ≠ [])
    (hd : ∀ c ∈ digits, Text.isDecimalDigit c = true) (h : EndsNumber rest) :
    afterNumber? (digits ++ rest) = some rest ∧
      afterNumber? ('-' :: (digits ++ rest)) = some rest := by
  obtain ⟨d, ds, rfl⟩ := List.exists_cons_of_ne_nil hne
  have htake : ((d :: ds ++ rest).takeWhile Text.isDecimalDigit).isEmpty = false := by
    rw [List.cons_append, List.takeWhile_cons_of_pos (hd d (List.mem_cons_self ..))]
    rfl
  have hdrop : (d :: ds ++ rest).dropWhile Text.isDecimalDigit = rest := by
    rw [List.dropWhile_append_of_pos hd]
    cases rest with
    | nil => rfl
    | cons c cs => exact List.dropWhile_cons_of_neg (by simp [(h c rfl).1])
  have hpoint : ∀ e more, rest ≠ '.' :: e :: more := by
    rintro e more rfl
    exact (h '.' rfl).2 rfl
  have hsign : ∀ more, d :: ds ++ rest ≠ '-' :: more := by
    rintro more he
    have hdash := hd d (List.mem_cons_self ..)
    rw [(List.cons.inj he).1] at hdash
    cases hdash
  constructor
  · rw [afterNumber?]
    · simp only [htake, hdrop, Bool.false_eq_true, if_false]
    · exact hsign
  · rw [afterNumber?]
    simp only [htake, hdrop, Bool.false_eq_true, if_false]

/-- A number is passed. -/
theorem afterNumber?_number {cs rest : List Char} (hn : Spells .number cs) (h : EndsNumber rest) :
    afterNumber? (cs ++ rest) = some rest := by
  obtain ⟨digits, hne, hd, hcs⟩ := hn.number
  obtain ⟨hplain, hsigned⟩ := afterNumber?_digits hne (fun c hc => decimal_of_isDigit (hd c hc)) h
  rcases hcs with rfl | rfl
  · exact hplain
  · exact hsigned

/-- White space before a character that is none is passed, and no more. -/
private theorem dropWhile_blanks {blanks : List Char}
    (hb : ∀ c ∈ blanks, Text.isWhitespace c = true) {c : Char}
    (hc : Text.isWhitespace c = false) (rest : List Char) :
    (blanks ++ c :: rest).dropWhile Text.isWhitespace = c :: rest := by
  rw [List.dropWhile_append_of_pos hb, List.dropWhile_cons_of_neg (by simp [hc])]

/-- White space before a number is passed, and no more. -/
private theorem dropWhile_number {blanks cs : List Char}
    (hb : ∀ c ∈ blanks, Text.isWhitespace c = true) (hn : Spells .number cs) (rest : List Char) :
    (blanks ++ (cs ++ rest)).dropWhile Text.isWhitespace = cs ++ rest := by
  obtain ⟨c, tail, rfl, hw⟩ : ∃ c tail, cs = c :: tail ∧ Text.isWhitespace c = false := by
    obtain ⟨digits, hne, hd, rfl | rfl⟩ := hn.number
    · obtain ⟨d, ds, rfl⟩ := List.exists_cons_of_ne_nil hne
      have hplain := Text.of_isDigit (P := fun c => !Text.isWhitespace c) (by decide)
        (hd d (List.mem_cons_self ..))
      exact ⟨d, ds, rfl, by simpa using hplain⟩
    · exact ⟨'-', digits, rfl, by decide⟩
  exact dropWhile_blanks hb hw _

/-- A position is found, whatever white space stands in it. -/
theorem afterPosition?_numbers {b₁ b₂ b₃ b₄ n m rest : List Char}
    (h₁ : ∀ c ∈ b₁, Text.isWhitespace c = true) (h₂ : ∀ c ∈ b₂, Text.isWhitespace c = true)
    (h₃ : ∀ c ∈ b₃, Text.isWhitespace c = true) (h₄ : ∀ c ∈ b₄, Text.isWhitespace c = true)
    (hn : Spells .number n) (hm : Spells .number m) (hends : EndsNumber (b₃ ++ [',']))
    (h : EndsNumber rest) :
    afterPosition? (b₁ ++ '@' :: (b₂ ++ (n ++ (b₃ ++ ',' :: (b₄ ++ (m ++ rest)))))) =
      some rest := by
  have hcomma : EndsNumber (b₃ ++ ',' :: (b₄ ++ (m ++ rest))) := by
    cases b₃ <;> exact hends
  rw [afterPosition?, dropWhile_blanks h₁ (by decide)]
  simp only [dropWhile_number h₂ hn, afterNumber?_number hn hcomma,
    dropWhile_blanks h₃ (show Text.isWhitespace ',' = false by decide), dropWhile_number h₄ hm,
    afterNumber?_number hm h]

theorem endsNumber_comma : EndsNumber [','] := by
  rintro c ⟨rfl⟩
  decide

/-- A position that is written is found. -/
theorem afterPosition?_place (x y : Int) {rest : List Char} (h : EndsNumber rest) :
    afterPosition? (s!" @ {x},{y}".toList ++ rest) = some rest := by
  have htext : s!" @ {x},{y}".toList ++ rest =
      [' '] ++ '@' :: ([' '] ++ ((toString x).toList ++ ([] ++ ',' :: ([] ++
        ((toString y).toList ++ rest))))) := by
    rw [toList_placeText]
    simp
  have hspace : ∀ c ∈ [' '], Text.isWhitespace c = true :=
    List.forall_mem_singleton.mpr (by decide)
  have hnone : ∀ c ∈ ([] : List Char), Text.isWhitespace c = true := List.forall_mem_nil _
  rw [htext]
  exact afterPosition?_numbers hspace hspace hnone hnone (spells_toString x) (spells_toString y)
    endsNumber_comma h

/-- Where a word follows that is no position, none is found. -/
theorem afterPosition?_none {cs rest : List Char} (hs : '@' ∉ cs)
    (hw : ∃ c ∈ cs, Text.isWhitespace c = false) : afterPosition? (cs ++ rest) = none := by
  have hne : cs.dropWhile Text.isWhitespace ≠ [] := by
    obtain ⟨c, hc, hb⟩ := hw
    rw [Ne, List.dropWhile_eq_nil_iff]
    intro hall
    rw [hall c hc] at hb
    cases hb
  obtain ⟨d, ds, hd⟩ := List.exists_cons_of_ne_nil hne
  have hdrop : (cs ++ rest).dropWhile Text.isWhitespace = d :: (ds ++ rest) := by
    rw [List.dropWhile_append, hd]
    rfl
  have hsign : d ≠ '@' := by
    rintro rfl
    have hmem : '@' ∈ cs.dropWhile Text.isWhitespace := hd ▸ List.mem_cons_self ..
    exact hs ((List.dropWhile_sublist _).subset hmem)
  rw [afterPosition?, hdrop]
  split
  · rename_i he
    exact absurd (List.cons.inj he).1 hsign
  · rfl

/-- Text without a sign stays as it is, if no white space is left at its end. -/
theorem withoutPositions_plain {cs rest : List Char} (hs : '@' ∉ cs)
    (hw : ∀ c ∈ cs.getLast?, Text.isWhitespace c = false) :
    withoutPositions 0 (cs ++ rest) = cs ++ withoutPositions 0 rest := by
  induction cs with
  | nil => rfl
  | cons c cs ih =>
    rw [List.mem_cons, not_or] at hs
    have hnone : afterPosition? (c :: (cs ++ rest)) = none := by
      obtain ⟨d, hd⟩ : ∃ d, (c :: cs).getLast? = some d :=
        ⟨_, List.getLast?_eq_some_getLast (List.cons_ne_nil c cs)⟩
      have hsign : '@' ∉ c :: cs := by
        rw [List.mem_cons, not_or]
        exact hs
      exact afterPosition?_none hsign ⟨d, List.mem_of_getLast? hd, hw d hd⟩
    rw [List.cons_append, withoutPositions_cons, hnone]
    simp only
    rw [ih hs.2, List.cons_append]
    intro d hd
    refine hw d ?_
    cases cs with
    | nil => cases hd
    | cons e cs => rwa [List.getLast?_cons_cons]

theorem withoutPositions_skip (cs rest : List Char) :
    withoutPositions cs.length (cs ++ rest) = withoutPositions 0 rest := by
  induction cs with
  | nil => rfl
  | cons c cs ih => exact ih

/-- A position that is found is taken out. -/
theorem withoutPositions_found {cs rest : List Char} (hne : cs ≠ [])
    (h : afterPosition? (cs ++ rest) = some rest) :
    withoutPositions 0 (cs ++ rest) = withoutPositions 0 rest := by
  obtain ⟨c, cs, rfl⟩ := List.exists_cons_of_ne_nil hne
  rw [List.cons_append] at h ⊢
  rw [withoutPositions_cons, h]
  simp only [List.length_append, Nat.add_sub_cancel]
  exact withoutPositions_skip cs rest

/-- A position that is written is taken out. -/
theorem withoutPositions_place (x y : Int) {rest : List Char} (h : EndsNumber rest) :
    withoutPositions 0 (s!" @ {x},{y}".toList ++ rest) = withoutPositions 0 rest := by
  refine withoutPositions_found ?_ (afterPosition?_place x y h)
  rw [toList_placeText]
  exact List.cons_ne_nil _ _

/-- Where no sign stands, no position is found. -/
theorem withoutPositions_signless {cs : List Char} (h : '@' ∉ cs) : withoutPositions 0 cs = cs := by
  induction cs with
  | nil => rfl
  | cons c cs ih =>
    have hnone : afterPosition? (c :: cs) = none := by
      rw [afterPosition?]
      split
      · rename_i he
        have hmem : '@' ∈ (c :: cs).dropWhile Text.isWhitespace := he ▸ List.mem_cons_self ..
        exact absurd ((List.dropWhile_sublist _).subset hmem) h
      · rfl
    rw [withoutPositions_cons, hnone]
    exact congrArg (c :: ·) (ih fun hmem => h (List.mem_cons_of_mem c hmem))

/-! ## The line -/

theorem cutAt_none {separator : Char} {cs : List Char} (h : separator ∉ cs) :
    Text.cutAt separator cs = (cs, none) := by
  induction cs with
  | nil => rfl
  | cons c cs ih =>
    rw [List.mem_cons, not_or] at h
    rw [Text.cutAt, if_neg (Ne.symm h.1), ih h.2]

theorem cutAt_some {separator : Char} {cs : List Char} (h : separator ∉ cs) (rest : List Char) :
    Text.cutAt separator (cs ++ separator :: rest) = (cs, some rest) := by
  induction cs with
  | nil => rw [List.nil_append, Text.cutAt, if_pos rfl]
  | cons c cs ih =>
    rw [List.mem_cons, not_or] at h
    rw [List.cons_append, Text.cutAt, if_neg (Ne.symm h.1), ih h.2]

/-- What is written for a position: nothing, or two integers. -/
inductive IsPlaceText : List Char → Prop
  | absent : IsPlaceText []
  | present (x y : Int) : IsPlaceText s!" @ {x},{y}".toList

theorem IsPlaceText.brace {place : List Char} (h : IsPlaceText place) : '\x7b' ∉ place := by
  cases h with
  | absent => exact List.not_mem_nil
  | present x y =>
    have hinteger (n : Int) : '\x7b' ∉ (toString n).toList := by
      intro hmem
      have hk : TokenKind.number = .leftBrace := (spells_toString n).kind_of_mem hmem rfl
      cases hk
    rw [toList_placeText]
    simp only [List.mem_cons, List.mem_append, not_or]
    exact ⟨by decide, by decide, by decide, hinteger x, by decide, hinteger y⟩

theorem withoutPositions_gap (opens : Bool) :
    withoutPositions 0 (if opens then [' '] else []) = if opens then [' '] else [] := by
  cases opens
  · rfl
  · have hnone : afterPosition? [' '] = none := by decide
    simp only [if_true]
    rw [withoutPositions_cons, hnone]
    rfl

variable {α : Type}

theorem labelPart_sign {c : Component α} (h : IsHeadLabel c.label) :
    '@' ∉ (labelPart c).toList := by
  rw [labelPart]
  split
  · decide
  · rw [String.toList_append, List.mem_append, not_or]
    exact ⟨by decide, h.sign⟩

theorem labelPart_brace {c : Component α} (h : IsHeadLabel c.label) :
    '\x7b' ∉ (labelPart c).toList := by
  rw [labelPart]
  split
  · decide
  · rw [String.toList_append, List.mem_append, not_or]
    exact ⟨by decide, h.opening⟩

theorem labelPart_last {c : Component α} (h : IsHeadLabel c.label) :
    ∀ d ∈ (labelPart c).toList.getLast?, Text.isWhitespace d = false := by
  rw [labelPart]
  split
  · simp
  · rename_i hne
    have hlabel : c.label.toList ≠ [] := fun he => hne (String.toList_eq_nil_iff.mp he)
    rw [String.toList_append, List.getLast?_append_of_ne_nil _ hlabel]
    exact Text.last_of_trimmed h.trimmed

/-- What is left of a head without its position. -/
theorem header_eq {c : Component α} (h : IsHeadLabel c.label) {place : List Char}
    (hp : IsPlaceText place) (opens : Bool) :
    Text.trimEnd (withoutPositions 0
      ((labelPart c).toList ++ (place ++ if opens then [' '] else []))) = (labelPart c).toList := by
  have hends : EndsNumber (if opens then [' '] else []) := by
    cases opens
    · rintro d ⟨⟩
    · rintro d ⟨rfl⟩
      decide
  have hplace : withoutPositions 0 (place ++ if opens then [' '] else []) =
      if opens then [' '] else [] := by
    cases hp with
    | absent => exact withoutPositions_gap opens
    | present x y => exact (withoutPositions_place x y hends).trans (withoutPositions_gap opens)
  rw [withoutPositions_plain (labelPart_sign h) (labelPart_last h), hplace]
  have htrim := Text.trimEnd_eq_self (labelPart_last h)
  cases opens
  · simpa using htrim
  · rw [Text.trimEnd, if_pos rfl, List.reverse_append]
    exact htrim

/-- The line of a head with its position, and with the brace that opens a block. -/
def headLine (depth : Nat) (c : Component α) (place : List Char) (opens : Bool) : List Char :=
  (indent depth).toList ++ '[' :: (c.id.toList ++ ']' :: ((labelPart c).toList ++
    (place ++ if opens then [' ', '\x7b'] else [])))

/-- Rewriting a head puts one position in the place of another. -/
theorem patched_head (depth : Nat) {c : Component α} (hid : IsIdentifier c.id)
    (h : IsHeadLabel c.label) {place : List Char} (hp : IsPlaceText place) (opens : Bool) :
    ∃ parts, nodeLine? (headLine depth c place opens) = some parts ∧ parts.id = c.id.toList ∧
      ∀ other, patched parts c.id other = headLine depth c other.toList opens := by
  refine ⟨_, nodeLine?_head depth hid _, rfl, fun other => ?_⟩
  have hheader := header_eq h hp opens
  have hbrace : '\x7b' ∉ (labelPart c).toList ++ (place ++ if opens then [' '] else []) := by
    simp only [List.mem_append, not_or]
    refine ⟨labelPart_brace h, hp.brace, ?_⟩
    cases opens <;> decide
  cases opens
  · have hcut : Text.cutAt '\x7b' ((labelPart c).toList ++ (place ++ [])) =
        ((labelPart c).toList ++ (place ++ []), none) := cutAt_none hbrace
    rw [patched, headLine]
    simp only [Bool.false_eq_true, if_false, hcut] at hheader ⊢
    rw [hheader]
    simp
  · have hcut : Text.cutAt '\x7b' ((labelPart c).toList ++ (place ++ [' ', '\x7b'])) =
        ((labelPart c).toList ++ (place ++ [' ']), some []) := by
      have hsome := cutAt_some hbrace []
      simpa using hsome
    rw [patched, headLine]
    simp only [if_true, hcut] at hheader ⊢
    have hnothing : Text.trimEnd [] = [] := rfl
    rw [hheader, hnothing]
    simp only [List.append_nil, List.append_assoc, List.cons_append]

end ComponentDiagram.Print
