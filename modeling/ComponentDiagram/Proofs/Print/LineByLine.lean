import ComponentDiagram.Proofs.Grammar.Listing
import ComponentDiagram.Proofs.Grammar.Placeless
import ComponentDiagram.Proofs.Print.Clauses

/-! Source whose lines are rewritten one by one: a head gets another position, and white space is
lost at the end of a label. All that such source says is kept, but for positions. -/
namespace ComponentDiagram.Print
open Grammar Source

variable {α : Type} [Scalar α]

/-! ## Lines -/

/-- The tokens of lines, each behind the end of the line before it. -/
def moreLines : List (List Token) → List Token
  | [] => []
  | line :: lines => lineEnd :: (line ++ moreLines lines)

/-- Tokens within a line. -/
def OnLine (ts : List Token) : Prop := ∀ t ∈ ts, t.kind ≠ .newline

/-- Characters that have no meaning, and are white space. -/
def AreBlank (ts : List Token) : Prop := ∀ t ∈ ts, t.kind = .other ∧ isBlankToken t = true

theorem onLine_nil : OnLine [] := List.forall_mem_nil _

theorem areBlank_nil : AreBlank [] := List.forall_mem_nil _

theorem OnLine.tail {t : Token} {ts : List Token} (h : OnLine (t :: ts)) : OnLine ts :=
  fun u hu => h u (List.mem_cons_of_mem t hu)

theorem AreBlank.onLine {ts : List Token} (h : AreBlank ts) : OnLine ts := by
  intro t ht hn
  rw [(h t ht).1] at hn
  cases hn

/-- A position that is written, and can be read. -/
def IsPosition (α : Type) [Scalar α] (ts : List Token) : Prop :=
  headKind ts = .atSign ∧ OnLine ts ∧ ∃ place : α × α, ∀ rest, Placed (ts ++ rest) (some place) rest

/-- Tokens that are written for a position, or none. -/
inductive MayBePosition : List Token → Prop
  | absent : MayBePosition []
  | present {sign across comma down : Token} : sign.kind = .atSign → across.kind = .number →
      comma.kind = .comma → down.kind = .number → MayBePosition [sign, across, comma, down]

/-- A line is kept, or it holds the head of a component and nothing before a block, and gets another
position. White space is lost at the end of the head's label, and at the end of the line. -/
inductive Rewrites (α : Type) [Scalar α] (known : String → Prop) : List Token → List Token → Prop
  | kept {line} : OnLine line → Rewrites α known line line
  | head {o i c label blank place place' tail blank'} : Brackets o i c → known i.text →
      (∀ t ∈ label ++ blank, inHead t = true ∧ t.kind.isConnector = false) → AreBlank blank →
      MayBePosition place → IsPosition α place' →
      (tail = [] ∧ blank' = [] ∨ headKind tail = .leftBrace) → OnLine tail → AreBlank blank' →
      Rewrites α known (o :: i :: c :: (label ++ blank ++ (place ++ (tail ++ blank'))))
        (o :: i :: c :: (label ++ (place' ++ tail)))

/-- What is left of a line and the lines behind it, of which some are rewritten. -/
inductive Continues (α : Type) [Scalar α] (known : String → Prop) :
    List Token → List Token → Prop
  | intro {line blank lines lines'} : OnLine line → AreBlank blank →
      List.Forall₂ (Rewrites α known) lines lines' →
      Continues α known (line ++ (blank ++ moreLines lines)) (line ++ moreLines lines')

/-- Whole lines, of which some are rewritten. -/
inductive Starts (α : Type) [Scalar α] (known : String → Prop) : List Token → List Token → Prop
  | intro {line line' lines lines'} : Rewrites α known line line' →
      List.Forall₂ (Rewrites α known) lines lines' →
      Starts α known (line ++ moreLines lines) (line' ++ moreLines lines')

/-! ## The rest of a line -/

section

variable {known : String → Prop}

private theorem split_within {p : Token → Bool} {ts : List Token}
    (h : ¬ ∀ t ∈ ts, p t = true) (rest : List Token) :
    (ts ++ rest).takeWhile p = ts.takeWhile p ∧
      (ts ++ rest).dropWhile p = ts.dropWhile p ++ rest := by
  induction ts with
  | nil => exact absurd (List.forall_mem_nil _) h
  | cons t ts ih =>
    cases ht : p t with
    | false => simp [ht]
    | true =>
      obtain ⟨htake, hdrop⟩ := ih fun hall => h (List.forall_mem_cons.mpr ⟨ht, hall⟩)
      simp [ht, htake, hdrop]

private theorem split_moreLines {p : Token → Bool} (hp : IsRun p) (lines : List (List Token)) :
    (moreLines lines).takeWhile p = [] ∧ (moreLines lines).dropWhile p = moreLines lines := by
  cases lines with
  | nil => exact ⟨rfl, rfl⟩
  | cons line lines =>
    have hend : p lineEnd = false := hp.newline lineEnd rfl
    simp [moreLines, hend]

private theorem headKind_moreLines (lines : List (List Token)) :
    isFixed (headKind (moreLines lines)) = false := by
  cases lines <;> rfl

theorem similarity_continues : Similarity (Continues α known) where
  forth := by
    rintro t ts us h hfixed
    generalize hts : t :: ts = whole at h
    obtain @⟨line, blank, lines, lines', hline, hblank, hlines⟩ := h
    cases line with
    | cons u line =>
      obtain ⟨rfl, rfl⟩ := List.cons.inj hts
      exact ⟨t, _, rfl, rfl, rfl, .intro hline.tail hblank hlines⟩
    | nil =>
      cases blank with
      | cons u blank =>
        obtain ⟨rfl, -⟩ := List.cons.inj hts
        rw [(hblank t (List.mem_cons_self ..)).1] at hfixed
        cases hfixed
      | nil =>
        have hkind := headKind_moreLines lines
        rw [show moreLines lines = t :: ts from hts.symm, headKind, hfixed] at hkind
        cases hkind
  back := by
    rintro ts u us h hfixed
    generalize hus : u :: us = whole at h
    obtain @⟨line, blank, lines, lines', hline, hblank, hlines⟩ := h
    cases line with
    | cons t line =>
      obtain ⟨rfl, rfl⟩ := List.cons.inj hus
      exact ⟨u, _, rfl, rfl, rfl, .intro hline.tail hblank hlines⟩
    | nil =>
      have hkind := headKind_moreLines lines'
      rw [show moreLines lines' = u :: us from hus.symm, headKind, hfixed] at hkind
      cases hkind
  run := by
    rintro p ts us hp ⟨hline, hblank, hlines⟩
    rename_i line blank lines lines'
    by_cases hall : ∀ t ∈ line, p t = true
    · have hpass : ∀ t ∈ blank, p t = true := fun t ht => hp.other t (hblank t ht).1
      obtain ⟨htake, hdrop⟩ := split_moreLines hp lines
      obtain ⟨htake', hdrop'⟩ := split_moreLines hp lines'
      rw [List.takeWhile_append_of_pos hall, List.takeWhile_append_of_pos hall,
        List.dropWhile_append_of_pos hall, List.dropWhile_append_of_pos hall,
        List.takeWhile_append_of_pos hpass, List.dropWhile_append_of_pos hpass, htake, htake',
        hdrop, hdrop', List.append_nil, List.append_nil]
      exact ⟨joined_append fun t ht => (hblank t ht).2,
        @Continues.intro α _ known [] [] _ _ onLine_nil areBlank_nil hlines⟩
    · obtain ⟨htake, hdrop⟩ := split_within hall (blank ++ moreLines lines)
      obtain ⟨htake', hdrop'⟩ := split_within hall (moreLines lines')
      rw [htake, htake', hdrop, hdrop']
      refine ⟨rfl, .intro (fun t ht => ?_) hblank hlines⟩
      exact hline t ((List.dropWhile_sublist p).subset ht)

/-- A line that is kept, and those behind it. -/
theorem continues_kept {line : List Token} {lines lines' : List (List Token)} (h : OnLine line)
    (hlines : List.Forall₂ (Rewrites α known) lines lines') :
    Continues α known (line ++ moreLines lines) (line ++ moreLines lines') :=
  @Continues.intro α _ known line [] _ _ h areBlank_nil hlines

/-- At the end of a line the next one starts. -/
theorem Continues.next {t : Token} {ts us : List Token} (h : Continues α known (t :: ts) us)
    (ht : t.kind = .newline) : ∃ us', us = lineEnd :: us' ∧ Starts α known ts us' := by
  generalize hts : t :: ts = whole at h
  obtain @⟨line, blank, lines, lines', hline, hblank, hlines⟩ := h
  match line, blank with
  | u :: line, _ =>
    obtain ⟨rfl, -⟩ := List.cons.inj hts
    exact absurd ht (hline t (List.mem_cons_self ..))
  | [], u :: blank =>
    obtain ⟨rfl, -⟩ := List.cons.inj hts
    exact absurd ht (hblank.onLine t (List.mem_cons_self ..))
  | [], [] =>
    cases hlines with
    | nil => cases hts
    | cons hfirst hlines =>
      obtain ⟨-, rfl⟩ := List.cons.inj hts
      exact ⟨_, rfl, .intro hfirst hlines⟩

/-! ## The head of a line -/

/-- Behind a label stands a position, a block, the end of the line, or nothing. -/
private def EndsLabel (ts : List Token) : Prop :=
  ∀ t ∈ ts.head?, t.kind = .atSign ∨ t.kind = .leftBrace ∨ t.kind = .newline

private theorem endsLabel_cons {t : Token} {ts : List Token}
    (h : t.kind = .atSign ∨ t.kind = .leftBrace ∨ t.kind = .newline) : EndsLabel (t :: ts) := by
  rintro u ⟨rfl⟩
  exact h

private theorem endsLabel_tail {tail blank : List Token} {lines : List (List Token)}
    (ht : tail = [] ∧ blank = [] ∨ headKind tail = .leftBrace) :
    EndsLabel (tail ++ (blank ++ moreLines lines)) ∧
      headKind (tail ++ (blank ++ moreLines lines)) ≠ .atSign := by
  match tail, ht with
  | [], .inl ⟨_, hblank⟩ =>
    subst hblank
    cases lines with
    | nil => exact ⟨by rintro t ⟨⟩, by decide⟩
    | cons line lines => exact ⟨endsLabel_cons (.inr (.inr rfl)), nofun⟩
  | t :: tail, .inr hb =>
    have ht : t.kind = .leftBrace := hb
    exact ⟨endsLabel_cons (.inr (.inl ht)), by rw [List.cons_append, headKind, ht]; decide⟩

private theorem startsEdge_plain {ts : List Token} (h : ∀ t ∈ ts, t.kind.isConnector = false) :
    startsEdge ts = false := by
  match ts with
  | [] => rfl
  | [a] => rfl
  | [a, b] =>
    have hb := h b (by simp)
    rw [startsEdge, hb, headKind]
    simp [TokenKind.isConnector]
  | a :: b :: c :: ts =>
    have hb := h b (by simp)
    have hc := h c (by simp)
    simp [startsEdge, hb, hc, headKind]

/-- A label is gathered up to what stands behind it. -/
private theorem split_label {label rest : List Token}
    (hl : ∀ t ∈ label, inHead t = true ∧ t.kind.isConnector = false) (hr : EndsLabel rest) :
    (label ++ rest).takeWhile inHead = label ∧ (label ++ rest).dropWhile inHead = rest ∧
      startsEdge (label ++ rest) = false := by
  have hin : ∀ t ∈ label, inHead t = true := fun t ht => (hl t ht).1
  have hplain := startsEdge_plain fun t ht => (hl t ht).2
  rw [List.takeWhile_append_of_pos hin, List.dropWhile_append_of_pos hin]
  cases rest with
  | nil =>
    rw [List.append_nil]
    exact ⟨List.append_nil _, rfl, hplain⟩
  | cons t rest =>
    have hstop : inHead t = false ∧ t.kind ≠ .identifier ∧ t.kind.isConnector = false := by
      rcases hr t rfl with hk | hk | hk <;> rw [inHead, hk] <;> decide
    rw [List.takeWhile_cons_of_neg (by simp [hstop.1]),
      List.dropWhile_cons_of_neg (by simp [hstop.1]), List.append_nil]
    exact ⟨rfl, rfl, startsEdge_append hplain hstop.2.1 hstop.2.2⟩

private theorem placed_maybe {place rest left : List Token} {found : Option (α × α)}
    (hplace : MayBePosition place) (hr : headKind rest ≠ .atSign)
    (h : Placed (place ++ rest) found left) : left = rest := by
  cases hplace with
  | absent =>
    generalize hts : [] ++ rest = ts at h
    rw [List.nil_append] at hts
    cases h with
    | absent => exact hts.symm
    | present hk =>
      rw [hts] at hr
      exact absurd hk hr
  | present hs =>
    cases h with
    | absent hk => exact absurd hs hk
    | present => rfl

/-- The head of a component is read as before, but for its position. -/
theorem reads_moved {ts us rest : List Token} {c : Clause α} (hr : Reads ts c rest)
    (h : Starts α known ts us) : Continues α known ts us ∨
      (∃ c' rest', Reads us c' rest' ∧ c'.outline = c.outline ∧ Continues α known rest rest') := by
  obtain @⟨_, _, lines, lines', hline, hlines⟩ := h
  cases hline with
  | kept hline => exact .inl (continues_kept hline hlines)
  | @head o i d label blank place place' tail blank' hb _ hl hblank hplace hplace' htail hon
      hblank' =>
    right
    obtain ⟨hsign, -, new, hnew⟩ := hplace'
    have hcont : Continues α known (tail ++ (blank' ++ moreLines lines))
        (tail ++ moreLines lines') := .intro hon hblank' hlines
    have hold : o :: i :: d :: (label ++ blank ++ (place ++ (tail ++ blank'))) ++ moreLines lines =
        o :: i :: d :: ((label ++ blank) ++ (place ++ (tail ++ (blank' ++ moreLines lines)))) := by
      simp
    have hmoved : o :: i :: d :: (label ++ (place' ++ tail)) ++ moreLines lines' =
        o :: i :: d :: (label ++ (place' ++ (tail ++ moreLines lines'))) := by
      simp
    obtain ⟨hends, hnosign⟩ := @endsLabel_tail tail blank' lines htail
    rw [hold] at hr
    rw [hmoved]
    generalize tail ++ (blank' ++ moreLines lines) = behind at hr hcont hends hnosign
    generalize tail ++ moreLines lines' = behind' at hcont ⊢
    have hends₁ : EndsLabel (place ++ behind) := by
      cases hplace with
      | absent => exact hends
      | present hs => exact endsLabel_cons (.inl hs)
    have hends₂ : EndsLabel (place' ++ behind') := by
      cases place' with
      | nil => cases hsign
      | cons t place' => exact endsLabel_cons (.inl hsign)
    obtain ⟨htake, hdrop, hedge⟩ := split_label hl hends₁
    obtain ⟨htake', hdrop', hedge'⟩ :=
      split_label (fun t ht => hl t (List.mem_append_left _ ht)) hends₂
    generalize label ++ blank ++ (place ++ behind) = ts at hr htake hdrop hedge
    cases hr with
    | newline hk => cases hk.symm.trans hb.opening
    | closing hk => cases hk.symm.trans hb.opening
    | skipped hk =>
      rw [hb.opening] at hk
      cases hk
    | edge he =>
      cases he.head.symm.trans hb.opening
    | namedEdge _ he => cases he.startsEdge.symm.trans hedge
    | port hk => cases hk.symm.trans hb.opening
    | component _ _ hp =>
      rw [hdrop] at hp
      rw [htake, placed_maybe hplace hnosign hp, joined_append fun t ht => (hblank t ht).2]
      obtain ⟨hopens, hrest⟩ := similarity_continues.brace hcont
      refine ⟨_, _, .component hb hedge' (hdrop' ▸ hnew _), ?_, hrest⟩
      rw [htake', ← hopens]
      rfl

/-! ## Clauses -/

/-- The tokens start within a line, or with a line. -/
def Follows (α : Type) [Scalar α] (known : String → Prop) (ts us : List Token) : Prop :=
  Continues α known ts us ∨ Starts α known ts us

/-- A clause is read as before, but for the position of a head. -/
theorem reads_follows {ts us rest : List Token} {c : Clause α} (hr : Reads ts c rest)
    (hc : ∀ t, c ≠ .skipped t) (h : Follows α known ts us) :
    ∃ c' rest', Reads us c' rest' ∧ c'.outline = c.outline ∧ Follows α known rest rest' := by
  have hwithin : Continues α known ts us ∨
      ∃ c' rest', Reads us c' rest' ∧ c'.outline = c.outline ∧ Continues α known rest rest' := by
    rcases h with h | h
    · exact .inl h
    · exact reads_moved hr h
  rcases hwithin with h | ⟨c', rest', hr', hc', h⟩
  · cases hs : c.isStatement with
    | true =>
      obtain ⟨c', rest', hr', hc', hrest⟩ := similarity_continues.reads hr hs h
      exact ⟨c', rest', hr', congrArg Clause.placeless hc', .inl hrest⟩
    | false =>
      cases hr with
      | newline hk =>
        obtain ⟨us', rfl, hnext⟩ := h.next hk
        exact ⟨.newline, us', .newline rfl, rfl, .inr hnext⟩
      | skipped => exact absurd rfl (hc _)
      | _ => cases hs
  · exact ⟨c', rest', hr', hc', .inl h⟩

theorem readsAll_follows {ts us rest : List Token} {cs : List (Clause α)} (hr : ReadsAll ts cs rest)
    (hc : ∀ t, .skipped t ∉ cs) (h : Follows α known ts us) : ∃ cs' rest', ReadsAll us cs' rest' ∧
      cs'.map Clause.outline = cs.map Clause.outline ∧ Follows α known rest rest' := by
  induction hr generalizing us with
  | nil => exact ⟨[], us, .nil, rfl, h⟩
  | cons hr _ ih =>
    obtain ⟨c', us', hr', hc', h'⟩ :=
      reads_follows hr (fun t he => hc t (he ▸ List.mem_cons_self ..)) h
    obtain ⟨cs', rest', hrs, hcs, hrest⟩ := ih (fun t ht => hc t (List.mem_cons_of_mem _ ht)) h'
    exact ⟨c' :: cs', rest', .cons hr' hrs, by rw [List.map_cons, List.map_cons, hc', hcs], hrest⟩

/-! ## Empty lines -/

/-- A line that is not empty starts with the same token when it is rewritten. -/
theorem Rewrites.head_eq {t : Token} {line line' : List Token}
    (h : Rewrites α known (t :: line) line') :
    t.kind ≠ .newline ∧ ∃ more, line' = t :: more := by
  cases h with
  | kept hline => exact ⟨hline t (List.mem_cons_self ..), line, rfl⟩
  | head hb => exact ⟨by rw [hb.opening]; decide, _, rfl⟩

theorem Rewrites.nil_eq {line' : List Token} (h : Rewrites α known [] line') : line' = [] := by
  cases h
  rfl

theorem Starts.afterLines {ts us : List Token} (h : Starts α known ts us) :
    Starts α known (afterLines ts) (afterLines us) := by
  obtain @⟨line, line', lines, lines', hline, hlines⟩ := h
  induction hlines generalizing line line' with
  | nil =>
    cases line with
    | nil => rw [hline.nil_eq]; exact .intro (.kept onLine_nil) .nil
    | cons t line =>
      obtain ⟨ht, more, rfl⟩ := hline.head_eq
      rw [Grammar.afterLines, Grammar.afterLines, List.cons_append, List.cons_append,
        List.dropWhile_cons_of_neg (by simp [ht]), List.dropWhile_cons_of_neg (by simp [ht])]
      exact .intro hline .nil
  | cons hnext hlines ih =>
    cases line with
    | nil => rw [hline.nil_eq]; exact ih hnext
    | cons t line =>
      obtain ⟨ht, more, rfl⟩ := hline.head_eq
      rw [Grammar.afterLines, Grammar.afterLines, List.cons_append, List.cons_append,
        List.dropWhile_cons_of_neg (by simp [ht]), List.dropWhile_cons_of_neg (by simp [ht])]
      exact .intro hline (.cons hnext hlines)

theorem Starts.nil_left {us : List Token} (h : Starts α known [] us) : us = [] := by
  generalize hts : [] = ts at h
  obtain @⟨line, line', lines, lines', hline, hlines⟩ := h
  obtain ⟨rfl, hmore⟩ := List.append_eq_nil_iff.mp hts.symm
  cases hlines with
  | nil => rw [hline.nil_eq, List.nil_append, moreLines]
  | cons => cases hmore

theorem Continues.nil_left {us : List Token} (h : Continues α known [] us) : us = [] := by
  generalize hts : [] = ts at h
  obtain @⟨line, blank, lines, lines', -, -, hlines⟩ := h
  obtain ⟨rfl, hmore⟩ := List.append_eq_nil_iff.mp hts.symm
  obtain ⟨rfl, hmore⟩ := List.append_eq_nil_iff.mp hmore
  cases hlines with
  | nil => rfl
  | cons => cases hmore

/-- Only a head is rewritten. -/
theorem Starts.continues {ts us : List Token} (h : Starts α known ts us)
    (hts : ∀ o i rest, ts = o :: i :: rest → o.kind = .leftBracket → ¬ known i.text) :
    Continues α known ts us := by
  obtain @⟨_, _, lines, lines', hline, hlines⟩ := h
  cases hline with
  | kept hline => exact continues_kept hline hlines
  | head hb hknown => exact absurd hknown (hts _ _ _ rfl hb.opening)

theorem Follows.continues {t : Token} {ts us : List Token} (h : Follows α known (t :: ts) us)
    (ht : t.kind ≠ .leftBracket) : Continues α known (t :: ts) us := by
  rcases h with h | h
  · exact h
  · refine h.continues fun o i rest he hk => ?_
    obtain ⟨rfl, -⟩ := List.cons.inj he
    exact absurd hk ht

/-- A block opens where it did. -/
theorem Continues.opens {b : Token} {ts us inner : List Token} (h : Continues α known ts us)
    (hb : afterLines ts = b :: inner) (hk : b.kind = .leftBrace) :
    ∃ b' inner', afterLines us = b' :: inner' ∧ b'.kind = .leftBrace ∧
      Continues α known inner inner' := by
  cases ts with
  | nil => cases hb
  | cons t ts =>
    by_cases ht : t.kind = .newline
    · obtain ⟨us', rfl, hnext⟩ := h.next ht
      rw [afterLines, List.dropWhile_cons_of_pos (by simp [ht])] at hb
      have hstart := hnext.afterLines
      rw [afterLines, hb] at hstart
      have hcont := Follows.continues (.inr hstart) (by rw [hk]; decide)
      obtain ⟨b', inner', hb', hk', -, hinner⟩ := similarity_continues.forth hcont (by rw [hk]; rfl)
      rw [afterLines, List.dropWhile_cons_of_pos (by rfl)]
      exact ⟨b', inner', hb', hk'.trans hk, hinner⟩
    · rw [afterLines, List.dropWhile_cons_of_neg (by simp [ht])] at hb
      obtain ⟨rfl, rfl⟩ := List.cons.inj hb
      obtain ⟨b', inner', rfl, hk', -, hinner⟩ := similarity_continues.forth h (by rw [hk]; rfl)
      refine ⟨b', inner', ?_, hk'.trans hk, hinner⟩
      rw [afterLines, List.dropWhile_cons_of_neg (by rw [hk', hk]; decide)]

theorem Continues.afterLines_nil {ts us : List Token} (h : Continues α known ts us)
    (ht : afterLines ts = []) : afterLines us = [] := by
  cases ts with
  | nil => rw [h.nil_left]; rfl
  | cons t ts =>
    by_cases hk : t.kind = .newline
    · obtain ⟨us', rfl, hnext⟩ := h.next hk
      rw [afterLines, List.dropWhile_cons_of_pos (by simp [hk])] at ht
      have hstart := hnext.afterLines
      rw [afterLines, ht] at hstart
      exact hstart.nil_left
    · rw [afterLines, List.dropWhile_cons_of_neg (by simp [hk])] at ht
      cases ht

theorem Starts.wrapperType? {ts us : List Token} (h : Starts α known ts us) :
    wrapperType? ts = wrapperType? us := by
  obtain @⟨_, _, lines, lines', hline, hlines⟩ := h
  cases hline with
  | kept hline => exact similarity_continues.wrapperType? (continues_kept hline hlines)
  | head => rfl

/-! ## Diagrams -/

private theorem name_of_ofName? {text : String} {type : DiagramType}
    (h : DiagramType.ofName? text = some type) : text = type.name := by
  have hname := List.find?_some h
  exact (beq_iff_eq.mp hname).symm

/-- Source without a diagnostic is read as the same diagram when lines of it are rewritten, if the
line that opens the diagram is none of them. -/
theorem accepts_moved {limit : Option Nat} {ts us : List Token} {type : DiagramType} {s : State α}
    (h : Accepts limit ts type s) (hd : s.diagnostics = []) (hs : Starts α known ts us)
    (hw : ∀ type, wrapperType? (afterLines ts) = some type → ¬ known type.name) :
    ∃ s', Accepts limit us type s' ∧ s'.outline = s.outline := by
  have hlines := hs.afterLines
  cases h with
  | plain ht hr ha hscope =>
    obtain ⟨cs', rest, hr', hcs, hrest⟩ := readsAll_follows hr (not_skipped ha hd) (.inr hlines)
    obtain ⟨s', ha', hs'⟩ := actAll_of_outline hcs ha
    have hnil : rest = [] := hrest.elim Continues.nil_left Starts.nil_left
    rw [hnil] at hr'
    exact ⟨s', .plain (hlines.wrapperType? ▸ ht) hr' ha' (scope_of_outline hs' hscope), hs'⟩
  | @wrapped o n c rest b inner cs r after _ _ hts ht hc hb hbk hr hrk hafter ha hscope =>
    have htype := hlines.wrapperType?
    have hkind : o.kind = .leftBracket ∧ n.kind = .identifier := by
      rw [wrapperType?] at ht
      split at ht
      · rename_i hk
        rwa [Bool.and_eq_true, beq_iff_eq, beq_iff_eq] at hk
      · cases ht
    have hname : n.text = type.name := by
      rw [wrapperType?, hkind.1, hkind.2] at ht
      exact name_of_ofName? ht
    rw [hts] at hlines htype hw
    have hcont : Continues α known (o :: n :: c :: rest) (afterLines us) := by
      refine hlines.continues fun o' i rest' he _ hknown => ?_
      cases he
      exact hw type ht (hname ▸ hknown)
    obtain ⟨o', us₁, hus, -, -, hcont⟩ := similarity_continues.forth hcont (by rw [hkind.1]; rfl)
    obtain ⟨n', us₂, rfl, -, -, hcont⟩ := similarity_continues.forth hcont (by rw [hkind.2]; rfl)
    obtain ⟨c', us₃, rfl, hc', -, hcont⟩ := similarity_continues.forth hcont (by rw [hc]; rfl)
    obtain ⟨b', inner', hb', hbk', hinner⟩ := hcont.opens hb hbk
    obtain ⟨cs', left, hr', hcs, hleft⟩ := readsAll_follows hr (not_skipped ha hd) (.inl hinner)
    obtain ⟨r', after', rfl, hrk', -, hend⟩ :=
      similarity_continues.forth (hleft.continues (by rw [hrk]; decide)) (by rw [hrk]; rfl)
    obtain ⟨s', ha', hs'⟩ := actAll_of_outline hcs ha
    rw [hus] at htype
    exact ⟨s', .wrapped hus (htype ▸ ht) (hc'.trans hc) hb' hbk' hr' (hrk'.trans hrk)
      (hend.afterLines_nil hafter) ha' (scope_of_outline hs' hscope), hs'⟩

end

end ComponentDiagram.Print
