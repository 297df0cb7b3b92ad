import ComponentDiagram.Proofs.Source.Value
import ComponentDiagram.Text.Integer

/-! An integer in plain digits is one number, and reads back as the integer. -/
namespace ComponentDiagram

namespace Text

theorem eq_of_isDigit {c : Char} (h : c.isDigit = true) :
    c ∈ ['0', '1', '2', '3', '4', '5', '6', '7', '8', '9'] := by
  simp only [Char.isDigit, Bool.and_eq_true, decide_eq_true_eq, UInt32.le_iff_toNat_le] at h
  have hc : c = Char.ofNat c.val.toNat := (Char.ofNat_toNat c).symm
  have h0 : ('0' : Char).val.toNat = 48 := rfl
  have h9 : ('9' : Char).val.toNat = 57 := rfl
  have hn : c.val.toNat = 48 ∨ c.val.toNat = 49 ∨ c.val.toNat = 50 ∨ c.val.toNat = 51 ∨
      c.val.toNat = 52 ∨ c.val.toNat = 53 ∨ c.val.toNat = 54 ∨ c.val.toNat = 55 ∨
      c.val.toNat = 56 ∨ c.val.toNat = 57 := by omega
  rw [hc]
  rcases hn with h | h | h | h | h | h | h | h | h | h <;> rw [h] <;> decide

/-- What holds of the ten digits holds of all. -/
theorem of_isDigit {P : Char → Bool} (hP : ['0', '1', '2', '3', '4', '5', '6', '7', '8', '9'].all P)
    {c : Char} (h : c.isDigit = true) : P c = true :=
  List.all_eq_true.mp hP c (eq_of_isDigit h)

theorem digitRun?_digits {cs : List Char} (hne : cs ≠ []) (h : ∀ c ∈ cs, c.isDigit = true) :
    digitRun? cs = some (cs.map fun c => c.toNat - 48) := by
  induction cs with
  | nil => exact absurd rfl hne
  | cons c rest ih =>
    have hc : digitValue? c = some (c.toNat - 48) := by
      rw [digitValue?, if_pos (h c (List.mem_cons_self ..))]
    cases rest with
    | nil => simp [digitRun?, hc]
    | cons d rest =>
      have hd : d ≠ '_' := by
        rintro rfl
        exact absurd (h '_' (by simp)) (by decide)
      have hrest := ih (by simp) fun e he => h e (List.mem_cons_of_mem c he)
      rw [digitRun?]
      · simp only [hc, hrest]
        rfl
      · exact fun he => hd he

private theorem not_blank_of_isDigit {c : Char} (h : c.isDigit = true) :
    isNumberBlank c = false := by
  have := of_isDigit (P := fun c => !isNumberBlank c) (by decide) h
  simpa using this

private theorem strip_eq {c : Char} {cs : List Char} (hc : isNumberBlank c = false)
    (h : ∀ d ∈ cs, d.isDigit = true) :
    (((c :: cs).dropWhile isNumberBlank).reverse.dropWhile isNumberBlank).reverse = c :: cs := by
  have hlast : ∀ d ∈ (c :: cs).getLast?, isNumberBlank d = false := by
    intro d hd
    rcases List.mem_cons.mp (List.mem_of_getLast? hd) with rfl | hd
    · exact hc
    · exact not_blank_of_isDigit (h d hd)
  rw [List.dropWhile_cons_of_neg (by simp [hc])]
  cases hr : (c :: cs).reverse with
  | nil => simp at hr
  | cons d ds =>
    have hd : isNumberBlank d = false := by
      apply hlast
      rw [List.getLast?_eq_head?_reverse, hr]
      rfl
    rw [List.dropWhile_cons_of_neg (by simp [hd]), ← hr, List.reverse_reverse]

theorem toList_toString (n : Int) : (toString n).toList =
    (if n < 0 then ['-'] else []) ++ Nat.toDigits 10 n.natAbs := by
  cases n with
  | ofNat n =>
    rw [if_neg (by simp)]
    simp [Int.toString_eq_repr, Int.repr]
  | negSucc n =>
    rw [if_pos (Int.negSucc_lt_zero n)]
    simp [Int.toString_eq_repr, Int.repr, Int.natAbs]

theorem digitsValue_toDigits (n : Nat) :
    digitsValue ((Nat.toDigits 10 n).map fun c => c.toNat - 48) = n := by
  rw [digitsValue, List.foldl_map]
  exact Nat.ofDigitChars_ten_toDigits

/-- Plain digits are a non-negative integer. -/
theorem signedDigits?_digits {cs : List Char} (hne : cs ≠ []) (h : ∀ c ∈ cs, c.isDigit = true) :
    signedDigits? cs = some (false, cs.map fun c => c.toNat - 48) := by
  have hrun := digitRun?_digits hne h
  cases cs with
  | nil => exact absurd rfl hne
  | cons c cs =>
    have hc := h c (List.mem_cons_self ..)
    rw [signedDigits?, strip_eq (not_blank_of_isDigit hc) fun d hd => h d (List.mem_cons_of_mem c hd)]
    have hminus : c ≠ '-' := by rintro rfl; cases hc
    have hplus : c ≠ '+' := by rintro rfl; cases hc
    split
    · rename_i he
      exact absurd (List.cons.inj he).1 hminus
    · rename_i he
      exact absurd (List.cons.inj he).1 hplus
    · rw [hrun, Option.map_some]

/-- Plain digits behind a minus sign are a negative integer, or zero. -/
theorem signedDigits?_negative {cs : List Char} (hne : cs ≠ []) (h : ∀ c ∈ cs, c.isDigit = true) :
    signedDigits? ('-' :: cs) = some (true, cs.map fun c => c.toNat - 48) := by
  rw [signedDigits?, strip_eq (by decide) h]
  simp only [digitRun?_digits hne h, Option.map_some]

/-- The digits of an integer read back. -/
theorem signedDigits?_toString (n : Int) : signedDigits? (toString n).toList =
    some (decide (n < 0), (Nat.toDigits 10 n.natAbs).map fun c => c.toNat - 48) := by
  have hdigits : ∀ c ∈ Nat.toDigits 10 n.natAbs, c.isDigit = true :=
    fun c hc => Nat.isDigit_of_mem_toDigits (by decide) (by decide) hc
  rw [toList_toString]
  by_cases hn : n < 0
  · simp only [hn, if_true, List.singleton_append, decide_true]
    exact signedDigits?_negative Nat.toDigits_ne_nil hdigits
  · simp only [hn, if_false, List.nil_append, decide_false]
    exact signedDigits?_digits Nat.toDigits_ne_nil hdigits

end Text

namespace Source

private theorem spells_digits {c : Char} {cs : List Char} (hc : c.isDigit = true)
    (h : ∀ d ∈ cs, d.isDigit = true) : Spells .number (c :: cs) := by
  have hblank : isBlank c = false := by
    simpa using Text.of_isDigit (P := fun c => !isBlank c) (by decide) hc
  have hline : c ≠ '\n' := by rintro rfl; cases hc
  have hdash : c ≠ '-' := by rintro rfl; cases hc
  have hdel : delimiter? c = none := by
    simpa using Text.of_isDigit (P := fun c => (delimiter? c).isNone) (by decide) hc
  have hletter : (Text.isLetter c || c == '_' || c == '.') = false := by
    simpa using Text.of_isDigit (P := fun c => !(Text.isLetter c || c == '_' || c == '.'))
      (by decide +kernel) hc
  have hstart : startsNumber (c :: cs) = true := by simp [startsNumber, hdash, hc]
  have hrun : numberRun (c :: cs) = c :: cs := by
    have hall : ∀ d ∈ c :: cs, d.isDigit = true := by
      intro d hd
      rcases List.mem_cons.mp hd with rfl | hd
      · exact hc
      · exact h d hd
    rw [numberRun, List.takeWhile_eq_self_iff.mpr hall]
    rintro _ he
    exact hdash (List.cons.inj he).1
  refine ⟨c, cs, rfl, hblank, (lexeme_rule hblank).mpr ?_⟩
  have hrule := @Rule.number c cs hline hdel (connector?_of_ne_dash hdash cs) hletter hstart
  rwa [hrun] at hrule

private theorem spells_negative {c : Char} {cs : List Char} (hc : c.isDigit = true)
    (h : ∀ d ∈ cs, d.isDigit = true) : Spells .number ('-' :: c :: cs) := by
  have hall : ∀ d ∈ c :: cs, d.isDigit = true := by
    intro d hd
    rcases List.mem_cons.mp hd with rfl | hd
    · exact hc
    · exact h d hd
  refine ⟨'-', c :: cs, rfl, by decide, (lexeme_rule (by decide)).mpr ?_⟩
  have hrule := @Rule.number '-' (c :: cs) (by decide) (by decide)
    (connector?_of_digit hc cs) (by decide) hc
  rwa [numberRun, List.takeWhile_eq_self_iff.mpr hall] at hrule

/-- An integer in plain digits is one number. -/
theorem spells_toString (n : Int) : Spells .number (toString n).toList := by
  have hdigits : ∀ c ∈ Nat.toDigits 10 n.natAbs, c.isDigit = true :=
    fun c hc => Nat.isDigit_of_mem_toDigits (by decide) (by decide) hc
  rw [Text.toList_toString]
  cases hd : Nat.toDigits 10 n.natAbs with
  | nil => exact absurd hd Nat.toDigits_ne_nil
  | cons c cs =>
    rw [hd] at hdigits
    have hc := hdigits c (List.mem_cons_self ..)
    have hcs := fun d hd => hdigits d (List.mem_cons_of_mem c hd)
    split
    · exact spells_negative hc hcs
    · exact spells_digits hc hcs

end Source

end ComponentDiagram
