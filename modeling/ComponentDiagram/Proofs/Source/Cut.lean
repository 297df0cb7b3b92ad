import ComponentDiagram.Proofs.Source.Lexeme

/-! The cut of a text: its tokens in order, without blanks, without the end of input, and without
their positions. Texts that stand apart are cut apart. -/
namespace ComponentDiagram

/-- A token that stands elsewhere. -/
def Token.moved (f : Position → Position) (t : Token) : Token := { t with position := f t.position }

/-- A token that stands nowhere in particular. -/
def Token.unplaced (t : Token) : Token := { t with position := {} }

@[simp] theorem Token.unplaced_kind (t : Token) : t.unplaced.kind = t.kind := rfl

@[simp] theorem Token.unplaced_text (t : Token) : t.unplaced.text = t.text := rfl

/-- Identifiers, and the words with a kind of their own. -/
def isWord : TokenKind → Bool
  | .identifier | .portWord | .onWord | .withWord | .side => true
  | _ => false

namespace Source

theorem isWord_wordKind (w : List Char) : isWord (wordKind w) = true := by
  unfold wordKind
  repeat' split
  all_goals rfl

/-- Neither a blank nor the end of input. -/
def isSubstantial (t : Token) : Bool := t.kind != .blank && t.kind != .endOfInput

def cut (cs : List Char) : List Token :=
  ((scan true {} 0 cs).filter isSubstantial).map Token.unplaced

/-- The token of a lexeme, standing nowhere in particular. -/
def lexemeToken (k : TokenKind) (x : List Char) : Token := ⟨k, String.ofList x, {}⟩

theorem lexeme_of_blank {c : Char} (hc : isBlank c = true) (rest : List Char) :
    lexeme c rest = (.blank, c :: rest.takeWhile isBlank) := by
  simp [lexeme, blankRun, hc]

theorem isConnector_of_connector? {cs x : List Char} {k : TokenKind}
    (h : connector? cs = some (k, x)) : k.isConnector = true := by
  unfold connector? at h
  split at h
  · cases h; rfl
  split at h
  · cases h; rfl
  split at h
  · cases h; rfl
  obtain ⟨mark, -, he⟩ := Option.map_eq_some_iff.mp h
  cases he
  rfl

theorem isSubstantial_lexeme {c : Char} (hc : isBlank c = false) {rest x : List Char}
    {k : TokenKind} (h : lexeme c rest = (k, x)) {t : Token} (ht : t.kind = k) :
    isSubstantial t = true := by
  have hk : k ≠ .blank ∧ k ≠ .endOfInput := by
    rw [lexeme_rule hc] at h
    cases h with
    | newline => simp
    | delimiter _ hd =>
      unfold delimiter? at hd
      split at hd <;> cases hd <;> simp
    | connector _ hf =>
      have := isConnector_of_connector? hf
      constructor <;> rintro rfl <;> cases this
    | word => unfold wordKind; repeat' split
              all_goals simp
    | number => simp
    | other => simp
  simp [isSubstantial, ht, hk]

/-! ## One lexeme after the other -/

/-- A lexeme is cut, blank or not, where blanks are kept. -/
theorem scan_cons (p : Position) (c : Char) (rest : List Char) :
    scan true p 0 (c :: rest) = ⟨(lexeme c rest).1, String.ofList (lexeme c rest).2, p⟩ ::
      scan true (p.step c) ((lexeme c rest).2.length - 1) rest := rfl

/-- What is skipped are the blanks that would be cut if they were kept. -/
theorem scan_false (cs : List Char) (p : Position) (n : Nat) :
    scan false p n cs = (scan true p n cs).filter fun t => t.kind != .blank := by
  induction cs generalizing p n with
  | nil => cases n <;> rfl
  | cons c rest ih =>
    cases n with
    | succ n => exact ih _ _
    | zero =>
      rcases hl : lexeme c rest with ⟨kind, text⟩
      rw [scan_cons, hl, scan, hl]
      by_cases hk : kind = .blank
      · rw [List.filter_cons_of_neg (by simp [hk])]
        simp [ih, hk]
      · rw [List.filter_cons_of_pos (by simp [hk])]
        simp [ih, hk]

theorem tokens_false (text : String) :
    tokens text false = (tokens text true).filter fun t => t.kind != .blank :=
  scan_false _ _ _

theorem scan_skip (cs : List Char) (p : Position) (n : Nat) :
    scan true p n cs = scan true (p.after (cs.take n)) 0 (cs.drop n) := by
  induction cs generalizing p n with
  | nil => cases n <;> simp [scan, Position.after]
  | cons c rest ih =>
    cases n with
    | zero => rfl
    | succ n => simp [scan, ih, Position.after]

/-- Where a text stands changes the positions of its tokens only. -/
theorem scan_map_unplaced (cs : List Char) (p q : Position) (n : Nat) :
    (scan true p n cs).map Token.unplaced = (scan true q n cs).map Token.unplaced := by
  induction cs generalizing p q n with
  | nil => rfl
  | cons c rest ih =>
    cases n with
    | zero =>
      rw [scan_cons, scan_cons, List.map_cons, List.map_cons, ih (p.step c) (q.step c)]
      rfl
    | succ n => exact ih _ _ _

private theorem filter_map_unplaced (ts : List Token) :
    (ts.filter isSubstantial).map Token.unplaced = (ts.map Token.unplaced).filter isSubstantial := by
  rw [List.filter_map]
  rfl

theorem scan_filter_unplaced (cs : List Char) (p : Position) (n : Nat) :
    ((scan true p n cs).filter isSubstantial).map Token.unplaced = cut (cs.drop n) := by
  rw [scan_skip, cut, filter_map_unplaced, filter_map_unplaced, scan_map_unplaced]

@[simp] theorem cut_nil : cut [] = [] := rfl

private theorem cut_dropWhile_blank (cs : List Char) : cut (cs.dropWhile isBlank) = cut cs := by
  cases cs with
  | nil => rfl
  | cons c rest =>
    cases hc : isBlank c with
    | false => rw [List.dropWhile_cons_of_neg (by simp [hc])]
    | true =>
      have hrest : rest.drop (rest.takeWhile isBlank).length = rest.dropWhile isBlank := by
        have hdrop := @List.drop_left _ (rest.takeWhile isBlank) (rest.dropWhile isBlank)
        rwa [List.takeWhile_append_dropWhile] at hdrop
      rw [List.dropWhile_cons_of_pos hc, ← hrest]
      have hscan := scan_filter_unplaced rest (({} : Position).step c)
        (rest.takeWhile isBlank).length
      rw [← hscan, cut, scan_cons, lexeme_of_blank hc, List.filter_cons_of_neg (by simp [isSubstantial])]
      rfl

@[simp] theorem cut_cons_of_blank {c : Char} (hc : isBlank c = true) (rest : List Char) :
    cut (c :: rest) = cut rest := by
  rw [← cut_dropWhile_blank, List.dropWhile_cons_of_pos hc, cut_dropWhile_blank]

theorem cut_cons_of_lexeme {c : Char} (hc : isBlank c = false) {rest x : List Char}
    {k : TokenKind} (h : lexeme c rest = (k, x)) :
    cut (c :: rest) = lexemeToken k x :: cut ((c :: rest).drop x.length) := by
  obtain ⟨tail, rfl, -, -⟩ := lexeme_self hc h
  rw [cut, scan_cons, h, List.filter_cons_of_pos (isSubstantial_lexeme hc h rfl), List.map_cons,
    scan_filter_unplaced]
  rfl

/-- What holds of a text whose front is a blank, and of one whose front is a lexeme, if it holds of
the rest, holds of every text. -/
theorem cut_induction {P : List Char → Prop} (nil : P [])
    (blank : ∀ c rest, isBlank c = true → P rest → P (c :: rest))
    (lexed : ∀ c tail more k, isBlank c = false → lexeme c (tail ++ more) = (k, c :: tail) →
      lexeme c tail = (k, c :: tail) → P more → P (c :: tail ++ more)) (cs : List Char) : P cs := by
  induction hn : cs.length using Nat.strong_induction_on generalizing cs with
  | _ n ih =>
    subst hn
    cases cs with
    | nil => exact nil
    | cons c rest =>
      cases hc : isBlank c with
      | true => exact blank c rest hc (ih _ (by simp) rest rfl)
      | false =>
        obtain ⟨tail, hx, ⟨more, rfl⟩, hself⟩ := lexeme_self hc (x := (lexeme c rest).2) rfl
        refine lexed c tail more (lexeme c (tail ++ more)).1 hc ?_ hself (ih _ ?_ more rfl)
        · rw [← hx]
        · simp only [List.length_cons, List.length_append]
          omega

/-- Texts that stand apart are cut apart. -/
theorem cut_append (a : List Char) {b : List Char} (hb : Apart b) :
    cut (a ++ b) = cut a ++ cut b := by
  induction a using cut_induction with
  | nil => rfl
  | blank c rest hc ih => rw [List.cons_append, cut_cons_of_blank hc, cut_cons_of_blank hc, ih]
  | lexed c tail more k hc h _ ih =>
    have h' := (lexeme_append hb hc (tail ++ more)).trans h
    have hcut := cut_cons_of_lexeme hc h
    have hcut' := cut_cons_of_lexeme hc h'
    simp only [List.cons_append, List.append_assoc, List.length_cons, List.drop_succ_cons,
      List.drop_left] at hcut hcut' ⊢
    rw [hcut, hcut', ih, List.cons_append]

end Source
end ComponentDiagram
