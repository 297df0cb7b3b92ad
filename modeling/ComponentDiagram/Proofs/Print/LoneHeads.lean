import ComponentDiagram.Proofs.Print.LineByLine
import ComponentDiagram.Proofs.Print.Patching

/-! Rewriting the line of a lone head: the position in it is found and replaced, and the tokens
around it are kept. -/
namespace ComponentDiagram.Print
open Grammar Source

/-! ## White space -/

theorem whitespace_of_blank {c : Char} (h : isBlank c = true) : Text.isWhitespace c = true := by
  simp only [isBlank, Bool.or_eq_true, beq_iff_eq] at h
  rcases h with (rfl | rfl) | rfl <;> decide

/-- White space on a line is cut into characters that have no meaning. -/
theorem areBlank_cut {cs : List Char} (h : ∀ c ∈ cs, Text.isWhitespace c = true) (hn : '\n' ∉ cs) :
    AreBlank (cut cs) := by
  intro t ht
  have hs := (isToken_of_mem_cut ht).spells
  have hmem : ∀ c ∈ t.text.toList, c ∈ cs := fun c hc => mem_of_mem_token ht hc
  refine ⟨?_, List.all_eq_true.mpr fun c hc => h c (hmem c hc)⟩
  obtain ⟨c, tail, hc, hb, -⟩ := id hs
  have hcs := hmem c (hc ▸ List.mem_cons_self ..)
  have hw := h c hcs
  have he := hs.eq_singleton (hc ▸ List.mem_cons_self ..) (boundary_of_whitespace hw)
  rw [he] at hs
  exact hs.kind_unique (spells_whitespace hw hb fun hline => hn (hline ▸ hcs))

/-- What is trimmed at the end of a line has no meaning. -/
theorem cut_trimEnd {cs : List Char} (hn : '\n' ∉ cs) :
    ∃ blank, AreBlank blank ∧ cut cs = cut (Text.trimEnd cs) ++ blank := by
  obtain ⟨ws, hsplit, hwhite⟩ := Text.trimEnd_split cs
  have happart : Apart ws := by
    cases ws with
    | nil => trivial
    | cons c ws => exact boundary_of_whitespace (hwhite c (List.mem_cons_self ..))
  have hline : '\n' ∉ ws := fun hmem => hn (hsplit ▸ List.mem_append_right _ hmem)
  refine ⟨cut ws, areBlank_cut hwhite hline, ?_⟩
  rw [← cut_append _ happart, ← hsplit]

/-! ## Lone heads -/

/-- The tokens behind a position, if there is one. -/
def behindPosition : List Token → List Token
  | s :: a :: c :: d :: ts =>
    if s.kind == .atSign && a.kind == .number && c.kind == .comma && d.kind == .number then ts
    else s :: a :: c :: d :: ts
  | ts => ts

/-- The head of one component, and nothing else but a block. -/
def isLoneHead : List Token → Bool
  | o :: i :: c :: ts =>
    o.kind == .leftBracket && i.kind == .identifier && c.kind == .rightBracket &&
      match behindPosition (ts.dropWhile inHead) with
      | [] => true
      | t :: _ => t.kind == .leftBrace
  | _ => false

private theorem behindPosition_split (ts : List Token) :
    ∃ place, MayBePosition place ∧ ts = place ++ behindPosition ts := by
  unfold behindPosition
  split
  · split
    · rename_i hk
      simp only [Bool.and_eq_true, beq_iff_eq] at hk
      exact ⟨_, .present hk.1.1.1 hk.1.1.2 hk.1.2 hk.2, rfl⟩
    · exact ⟨[], .absent, rfl⟩
  · exact ⟨[], .absent, rfl⟩

/-- A lone head is a name, a label, a position and a block. -/
theorem isLoneHead_split {ts : List Token} (h : isLoneHead ts = true) :
    ∃ o i c label place tail, ts = o :: i :: c :: (label ++ (place ++ tail)) ∧ Brackets o i c ∧
      (∀ t ∈ label, inHead t = true) ∧ MayBePosition place ∧
      (tail = [] ∨ headKind tail = .leftBrace) := by
  match ts, h with
  | o :: i :: c :: ts, h =>
    rw [isLoneHead, Bool.and_eq_true, Bool.and_eq_true, Bool.and_eq_true, beq_iff_eq, beq_iff_eq,
      beq_iff_eq] at h
    obtain ⟨⟨⟨ho, hi⟩, hc⟩, htail⟩ := h
    obtain ⟨place, hplace, hsplit⟩ := behindPosition_split (ts.dropWhile inHead)
    refine ⟨o, i, c, ts.takeWhile inHead, place, behindPosition (ts.dropWhile inHead), ?_,
      ⟨ho, hi, hc⟩, fun t ht => List.mem_takeWhile_imp ht, hplace, ?_⟩
    · rw [← hsplit, List.takeWhile_append_dropWhile]
    · split at htail
      · exact .inl ‹_›
      · rename_i hb
        rw [hb]
        exact .inr (beq_iff_eq.mp htail)

/-! ## The line in its parts -/

theorem nodeLine?_some {line : List Char} {parts : NodeLine} (h : nodeLine? line = some parts) :
    line = parts.indent ++ '[' :: (parts.id ++ ']' :: parts.rest) ∧
      (∀ c ∈ parts.indent, Text.isWhitespace c = true) ∧
      ∀ c ∈ parts.id, c ≠ ']' ∧ Text.isWhitespace c = false := by
  unfold nodeLine? at h
  split at h
  · rename_i inner hinner
    dsimp only at h
    split at h
    · rename_i hid hrest
      cases h
      have hline := List.takeWhile_append_dropWhile (p := Text.isWhitespace) (l := line)
      have hid' := List.takeWhile_append_dropWhile
        (p := fun c => c != ']' && !Text.isWhitespace c) (l := inner)
      rw [hinner] at hline
      rw [hrest] at hid'
      refine ⟨?_, fun c hc => List.mem_takeWhile_imp hc, fun c hc => ?_⟩
      · rw [hid', hline]
      · have hin := List.mem_takeWhile_imp hc
        simpa using hin
    · cases h
  · cases h

theorem cutAt_spec (separator : Char) (cs : List Char) :
    separator ∉ (Text.cutAt separator cs).1 ∧ cs = (Text.cutAt separator cs).1 ++
      (Text.cutAt separator cs).2.elim [] (separator :: ·) := by
  induction cs with
  | nil => exact ⟨List.not_mem_nil, rfl⟩
  | cons c cs ih =>
    rw [Text.cutAt]
    split
    · rename_i hc
      exact ⟨List.not_mem_nil, by rw [hc]; rfl⟩
    · rename_i hc
      refine ⟨?_, congrArg (c :: ·) ih.2⟩
      rw [List.mem_cons, not_or]
      exact ⟨Ne.symm hc, ih.1⟩

/-- The block that is opened on a line, as it is rewritten. -/
def rewrittenBlock (block : Option (List Char)) : List Char :=
  block.elim [] fun inner => ' ' :: '\x7b' :: Text.trimEnd inner

theorem patched_eq {parts : NodeLine} {header : List Char} {block : Option (List Char)}
    (h : Text.cutAt '\x7b' parts.rest = (header, block)) (id place : String) :
    patched parts id place = parts.indent ++ '[' :: (id.toList ++ ']' ::
      (Text.trimEnd (withoutPositions 0 header) ++ (place.toList ++ rewrittenBlock block))) := by
  rw [patched, h]
  cases block <;> simp [rewrittenBlock]

/-! ## The header -/

private theorem split_unique {p : Token → Prop} {a b x y : List Token} (h : a ++ x = b ++ y)
    (ha : ∀ t ∈ a, ¬ p t) (hb : ∀ t ∈ b, ¬ p t) (hx : ∀ t ∈ x.head?, p t)
    (hy : ∀ t ∈ y.head?, p t) : a = b ∧ x = y := by
  induction a generalizing b with
  | nil =>
    cases b with
    | nil => exact ⟨rfl, h⟩
    | cons u b =>
      rw [List.nil_append, List.cons_append] at h
      exact absurd (hx u (by rw [h]; rfl)) (hb u (List.mem_cons_self ..))
  | cons t a ih =>
    cases b with
    | nil =>
      rw [List.nil_append, List.cons_append] at h
      exact absurd (hy t (by rw [← h]; rfl)) (ha t (List.mem_cons_self ..))
    | cons u b =>
      obtain ⟨rfl, hrest⟩ := List.cons.inj h
      obtain ⟨rfl, hxy⟩ := ih hrest (fun v hv => ha v (List.mem_cons_of_mem _ hv))
        fun v hv => hb v (List.mem_cons_of_mem _ hv)
      exact ⟨rfl, hxy⟩

private theorem endsNumber_blanks {blanks rest : List Char} (h : ∀ c ∈ blanks, isBlank c = true)
    (hr : EndsNumber rest) : EndsNumber (blanks ++ rest) := by
  cases blanks with
  | nil => exact hr
  | cons c blanks =>
    have hb := h c (List.mem_cons_self ..)
    rintro d ⟨rfl⟩
    simp only [isBlank, Bool.or_eq_true, beq_iff_eq] at hb
    rcases hb with (rfl | rfl) | rfl <;> decide

/-- The sign, the numbers and the comma of a position, with blanks between them. -/
private theorem position_text {cs : List Char} {across comma down : Token}
    (hcut : cut cs = [across, comma, down]) (ha : across.kind = .number) (hc : comma.kind = .comma)
    (hd : down.kind = .number) : ∃ body rest, cs = body ++ rest ∧
      (∀ c ∈ rest, isBlank c = true) ∧ ∀ blanks, (∀ c ∈ blanks, Text.isWhitespace c = true) →
        afterPosition? (blanks ++ '@' :: (body ++ rest)) = some rest := by
  have htoken : ∀ t ∈ cut cs, Spells t.kind t.text.toList :=
    fun t ht => (isToken_of_mem_cut ht).spells
  simp only [hcut, List.forall_mem_cons, ha, hc, hd] at htoken
  obtain ⟨hacross, hcomma, hdown, -⟩ := htoken
  obtain ⟨b₂, r₁, rfl, h₂, hr₁⟩ := eq_of_cut_cons hcut
  obtain ⟨b₃, r₂, rfl, h₃, hr₂⟩ := eq_of_cut_cons hr₁
  obtain ⟨b₄, r₃, rfl, h₄, hr₃⟩ := eq_of_cut_cons hr₂
  have hblank := blank_of_cut_nil hr₃
  have hsign : comma.text.toList = [','] := by
    obtain ⟨d, hd, hk⟩ := hcomma.delimiter rfl
    rw [hd]
    unfold delimiter? at hk
    split at hk <;> first | rfl | cases hk
  refine ⟨b₂ ++ (across.text.toList ++ (b₃ ++ ',' :: (b₄ ++ down.text.toList))), r₃,
    by simp [hsign], hblank, fun blanks hb => ?_⟩
  have hends : EndsNumber r₃ := by
    have h : EndsNumber (r₃ ++ []) := endsNumber_blanks hblank (by rintro c ⟨⟩)
    rwa [List.append_nil] at h
  have hfound := afterPosition?_numbers hb (fun c hc => whitespace_of_blank (h₂ c hc))
    (fun c hc => whitespace_of_blank (h₃ c hc)) (fun c hc => whitespace_of_blank (h₄ c hc))
    hacross hdown (endsNumber_blanks h₃ endsNumber_comma) hends
  simpa using hfound

/-- Without its position, a header is its label; white space may be lost at the end. -/
theorem header_tokens {header : List Char} {label place : List Token} (hn : '\n' ∉ header)
    (hcut : cut header = label ++ place) (hl : ∀ t ∈ label, inHead t = true)
    (hp : MayBePosition place) : ∃ blank, AreBlank blank ∧
      label = cut (Text.trimEnd (withoutPositions 0 header)) ++ blank := by
  have hsignless : ∀ t ∈ label, ¬ t.kind = .atSign := by
    intro t ht hk
    have hin := hl t ht
    rw [inHead, hk] at hin
    cases hin
  cases hp with
  | absent =>
    rw [List.append_nil] at hcut
    have hsign : '@' ∉ header := by
      intro hmem
      obtain ⟨t, ht, hk⟩ := delimiter_mem_cut hmem (k := .atSign) rfl
      exact hsignless t (hcut ▸ ht) hk
    rw [withoutPositions_signless hsign, ← hcut]
    exact cut_trimEnd hn
  | @present sign across comma down hs ha hc hd =>
    have hmem : '@' ∈ header := by
      by_contra hnone
      exact kind_ne_of_not_mem (k := .atSign) rfl hnone sign (by simp [hcut]) hs
    obtain ⟨front, behind, rfl, hfront⟩ := List.eq_append_cons_of_mem hmem
    have happart : Apart ('@' :: behind) := boundary_of_delimiter (k := .atSign) rfl
    rw [cut_append _ happart, cut_delimiter (k := .atSign) rfl] at hcut
    obtain ⟨rfl, hplace⟩ := split_unique (p := fun t => t.kind = .atSign) hcut
      (kind_ne_of_not_mem rfl hfront) hsignless (by rintro t ⟨rfl⟩; rfl)
      (by rintro t ⟨rfl⟩; exact hs)
    obtain ⟨-, hnumbers⟩ := List.cons.inj hplace
    obtain ⟨body, rest, rfl, hrest, hfound⟩ := position_text hnumbers ha hc hd
    obtain ⟨ws, hsplit, hws⟩ := Text.trimEnd_split front
    have htrimmed : Text.trimEnd (withoutPositions 0 (front ++ '@' :: (body ++ rest))) =
        Text.trimEnd front := by
      have hsign : '@' ∉ Text.trimEnd front := fun hmem =>
        hfront (hsplit ▸ List.mem_append_left _ hmem)
      have hrestsign : '@' ∉ rest := by
        intro hmem
        cases hrest _ hmem
      have hwhole : front ++ '@' :: (body ++ rest) =
          Text.trimEnd front ++ ((ws ++ '@' :: body) ++ rest) := by
        conv_lhs => rw [hsplit]
        simp
      have htaken : withoutPositions 0 ((ws ++ '@' :: body) ++ rest) = withoutPositions 0 rest := by
        refine withoutPositions_found (by simp) ?_
        simpa using hfound ws hws
      rw [hwhole, withoutPositions_plain hsign (Text.last_of_trimEnd front), htaken,
        withoutPositions_signless hrestsign,
        Text.trimEnd_append fun c hc => whitespace_of_blank (hrest c hc),
        Text.trimEnd_eq_self (Text.last_of_trimEnd front)]
    rw [htrimmed]
    exact cut_trimEnd fun hmem => hn (List.mem_append_left _ hmem)

/-! ## The line -/

variable {α : Type} [Scalar α]

omit [Scalar α] in
theorem nodeOnLine?_some {d : Diagram α} {line : List Char} {parts : NodeLine} {n : FlatNode α}
    (h : nodeOnLine? d line = some (parts, n)) : nodeLine? line = some parts ∧
      d.node? (String.ofList parts.id) = some n ∧ isConnectorLine line = false := by
  rw [nodeOnLine?] at h
  obtain ⟨parts', hparts, h⟩ := Option.bind_eq_some_iff.mp h
  obtain ⟨n', hn, h⟩ := Option.bind_eq_some_iff.mp h
  split at h
  · cases h
  · rename_i hc
    cases h
    exact ⟨hparts, hn, by simpa using hc⟩

private theorem isPosition_place {x y : α} (hx : IsWritable x) (hy : IsWritable y) :
    IsPosition α (placeTokens (some (integerOf x, integerOf y))) := by
  refine ⟨rfl, ?_, (reread x, reread y), fun rest => .present rfl rfl rfl rfl hx.reread hy.reread⟩
  simp [OnLine, placeTokens, token]

/-- The name of a lone head is the name on its line. -/
private theorem name_tokens {parts : NodeLine} {o i c : Token} {ts : List Token}
    (hi : ∀ c ∈ parts.indent, Text.isWhitespace c = true)
    (hid : ∀ c ∈ parts.id, c ≠ ']' ∧ Text.isWhitespace c = false) (hb : Brackets o i c)
    (hcut : cut (parts.indent ++ '[' :: (parts.id ++ ']' :: parts.rest)) = o :: i :: c :: ts) :
    cut parts.rest = ts ∧ i.text = String.ofList parts.id ∧ ∀ more,
      cut (parts.indent ++ '[' :: (parts.id ++ ']' :: more)) = o :: i :: c :: cut more := by
  have hopen (cs : List Char) : Apart ('[' :: cs) := boundary_of_delimiter (k := .leftBracket) rfl
  have hclose (cs : List Char) : Apart (']' :: cs) := boundary_of_delimiter (k := .rightBracket) rfl
  have hparts (more : List Char) : cut (parts.indent ++ '[' :: (parts.id ++ ']' :: more)) =
      cut parts.indent ++ lexemeToken .leftBracket ['['] ::
        (cut parts.id ++ lexemeToken .rightBracket [']'] :: cut more) := by
    rw [cut_append _ (hopen _), cut_delimiter (k := .leftBracket) rfl, cut_append _ (hclose _),
      cut_delimiter (k := .rightBracket) rfl]
  have hnone : cut parts.indent = [] := by
    cases hblank : cut parts.indent with
    | nil => rfl
    | cons t front =>
      rw [hparts, hblank] at hcut
      have ht : t = o := (List.cons.inj hcut).1
      have hopening : '[' ∉ parts.indent := fun hmem => by cases hi _ hmem
      have hne := kind_ne_of_not_mem (k := .leftBracket) rfl hopening t (by simp [hblank])
      exact absurd (ht ▸ hb.opening) hne
  have hname : cut parts.id = [i] := by
    rw [hparts, hnone, List.nil_append] at hcut
    obtain ⟨-, hcut⟩ := List.cons.inj hcut
    have hclosing : ']' ∉ parts.id := fun hmem => (hid _ hmem).1 rfl
    have hne := kind_ne_of_not_mem (k := .rightBracket) rfl hclosing
    match hcs : cut parts.id with
    | [] =>
      rw [hcs] at hcut
      have hk := hb.inner
      rw [← (List.cons.inj hcut).1] at hk
      cases hk
    | [t] =>
      rw [hcs] at hcut
      rw [(List.cons.inj hcut).1]
    | t :: u :: more =>
      rw [hcs] at hcut
      obtain ⟨-, hcut⟩ := List.cons.inj hcut
      obtain ⟨rfl, -⟩ := List.cons.inj hcut
      exact absurd hb.closing (hne u (by simp [hcs]))
  rw [hparts, hnone, hname] at hcut
  simp only [List.nil_append, List.cons_append, List.cons.injEq] at hcut
  obtain ⟨rfl, -, rfl, hts⟩ := hcut
  refine ⟨hts, ?_, fun more => by rw [hparts, hnone, hname]; rfl⟩
  obtain ⟨blanks, rest, he, hblanks, hrest⟩ := eq_of_cut_cons hname
  have hnil {cs : List Char} (h : ∀ c ∈ cs, isBlank c = true) (hs : ∀ c ∈ cs, c ∈ parts.id) :
      cs = [] := by
    refine List.eq_nil_iff_forall_not_mem.mpr fun c hc => ?_
    cases (whitespace_of_blank (h c hc)).symm.trans (hid c (hs c hc)).2
  rw [hnil hblanks fun c hc => by simp [he, hc],
    hnil (blank_of_cut_nil hrest) fun c hc => by simp [he, hc]] at he
  simp [he]

/-- A diagram knows a component of the name. -/
def Knows (d : Diagram α) (id : String) : Prop := ∃ n, d.node? id = some n

/-- The block that is opened on a line is kept, but for white space at its end. -/
private theorem block_tokens {block : Option (List Char)} (hn : ∀ b ∈ block, '\n' ∉ b) :
    ∃ tail blank, cut (block.elim [] ('\x7b' :: ·)) = tail ++ blank ∧
      cut (rewrittenBlock block) = tail ∧ AreBlank blank ∧ OnLine tail ∧
      (tail = [] ∧ blank = [] ∨ headKind tail = .leftBrace) := by
  cases block with
  | none => exact ⟨[], [], rfl, rfl, areBlank_nil, onLine_nil, .inl ⟨rfl, rfl⟩⟩
  | some rest =>
    have hrest := hn rest rfl
    obtain ⟨blank, hblank, hcut⟩ := cut_trimEnd hrest
    have hbrace (cs : List Char) : cut ('\x7b' :: cs) = lexemeToken .leftBrace ['\x7b'] :: cut cs :=
      cut_delimiter (k := .leftBrace) rfl cs
    refine ⟨lexemeToken .leftBrace ['\x7b'] :: cut (Text.trimEnd rest), blank, ?_, ?_, hblank, ?_,
      .inr rfl⟩
    · rw [Option.elim_some, hbrace, hcut, List.cons_append]
    · rw [rewrittenBlock, Option.elim_some, cut_space, hbrace]
    · refine List.forall_mem_cons.mpr ⟨nofun, fun t ht => kind_ne_newline hrest t ?_⟩
      rw [hcut]
      exact List.mem_append_left _ ht

private theorem apart_block (block : Option (List Char)) :
    Apart (block.elim [] ('\x7b' :: ·)) ∧ Apart (rewrittenBlock block) := by
  cases block with
  | none => exact ⟨trivial, trivial⟩
  | some rest => exact ⟨boundary_of_delimiter (k := .leftBrace) rfl, apart_space _⟩

private theorem head_braceless {label old : List Token} (hl : ∀ t ∈ label, inHead t = true)
    (hold : MayBePosition old) : ∀ t ∈ label ++ old, ¬ t.kind = .leftBrace := by
  intro t ht hk
  rcases List.mem_append.mp ht with ht | ht
  · have hin := hl t ht
    rw [inHead, hk] at hin
    cases hin
  · cases hold with
    | absent => cases ht
    | present hs ha hc hd =>
      simp only [List.mem_cons, List.not_mem_nil, or_false] at ht
      rcases ht with rfl | rfl | rfl | rfl
      · cases hk.symm.trans hs
      · cases hk.symm.trans ha
      · cases hk.symm.trans hc
      · cases hk.symm.trans hd

private theorem head_brace {tail : List Token} (h : tail = [] ∨ headKind tail = .leftBrace) :
    ∀ t ∈ tail.head?, t.kind = .leftBrace := by
  rcases h with rfl | h
  · rintro t ⟨⟩
  · cases tail with
    | nil => cases h
    | cons u tail =>
      rintro t ⟨rfl⟩
      exact h

/-- A lone head is rewritten with another position. -/
theorem rewrites_patched {parts : NodeLine} {known : String → Prop} {place' : List Token}
    {place : String} (hn : '\n' ∉ parts.rest)
    (hi : ∀ c ∈ parts.indent, Text.isWhitespace c = true)
    (hid : ∀ c ∈ parts.id, c ≠ ']' ∧ Text.isWhitespace c = false)
    (hknown : known (String.ofList parts.id))
    (halone : isLoneHead (cut (parts.indent ++ '[' :: (parts.id ++ ']' :: parts.rest))) = true)
    (hplain : ∀ t ∈ cut (parts.indent ++ '[' :: (parts.id ++ ']' :: parts.rest)),
      t.kind.isConnector = false)
    (hplace : ∀ cs, Apart cs → cut (place.toList ++ cs) = place' ++ cut cs)
    (hspace : ∀ cs, Apart (place.toList ++ cs)) (hposition : IsPosition α place') :
    Rewrites α known (cut (parts.indent ++ '[' :: (parts.id ++ ']' :: parts.rest)))
      (cut (patched parts (String.ofList parts.id) place)) := by
  obtain ⟨o, i, c, label, old, tail, hcut, hb, hl, hold, htail⟩ := isLoneHead_split halone
  obtain ⟨hrest, hname, hmore⟩ := name_tokens hi hid hb hcut
  rw [hcut] at hplain ⊢
  obtain ⟨hbrace, hblock⟩ := cutAt_spec '\x7b' parts.rest
  cases hpieces : Text.cutAt '\x7b' parts.rest with
  | mk header block =>
    rw [hpieces] at hbrace hblock
    have hheader : '\n' ∉ header := fun hmem =>
      hn (by rw [hblock]; exact List.mem_append_left _ hmem)
    have hline : ∀ b ∈ block, '\n' ∉ b := by
      rintro b ⟨rfl⟩ hmem
      exact hn (by rw [hblock]; simp [hmem])
    obtain ⟨tail', blank', htokens, hwritten, hblank', hon, hopens⟩ := block_tokens hline
    -- the first brace of the line ends the header, and no token of the head is a brace
    obtain ⟨hhead, htail'⟩ : cut header = label ++ old ∧ tail' ++ blank' = tail := by
      have hopens' : tail' ++ blank' = [] ∨ headKind (tail' ++ blank') = .leftBrace := by
        rcases hopens with ⟨rfl, rfl⟩ | hb
        · exact .inl rfl
        · cases tail' with
          | nil => cases hb
          | cons t tail' => exact .inr hb
      refine split_unique (p := fun t => t.kind = .leftBrace) ?_ (kind_ne_of_not_mem rfl hbrace)
        (head_braceless hl hold) (head_brace hopens') (head_brace htail)
      rw [← htokens, List.append_assoc, ← hrest, ← cut_append _ (apart_block block).1, ← hblock]
    obtain ⟨blank, hblank, rfl⟩ := header_tokens hheader hhead hl hold
    rw [patched_eq hpieces, String.toList_ofList, hmore, cut_append _ (hspace _),
      hplace _ (apart_block block).2, hwritten, ← htail']
    refine .head hb (hname ▸ hknown) (fun t ht => ⟨hl t ht, hplain t ?_⟩) hblank hold hposition
      hopens hon hblank'
    simp only [List.mem_cons, List.mem_append] at ht ⊢
    tauto

/-- Each line is kept or rewritten, if it holds no more than a lone head where it is rewritten. -/
theorem rewrites_line {d : Diagram α} {line : List Char} (hn : '\n' ∉ line)
    (halone : ∀ found, nodeOnLine? d line = some found → isLoneHead (cut line) = true)
    (hw : ∀ n ∈ d.nodes, IsWritable n.x ∧ IsWritable n.y) :
    ∃ line', patchLine d line = .ok line' ∧ Rewrites α (Knows d) (cut line) (cut line') := by
  cases hfound : nodeOnLine? d line with
  | none => exact ⟨line, by rw [patchLine, hfound], .kept (kind_ne_newline hn)⟩
  | some found =>
    obtain ⟨parts, n⟩ := found
    obtain ⟨hparts, hnode, hconnector⟩ := nodeOnLine?_some hfound
    obtain ⟨hline, hi, hid⟩ := nodeLine?_some hparts
    obtain ⟨hx, hy⟩ := hw n (mem_of_node? hnode)
    have hplaceText : placeText n.x n.y = .ok s!" @ {integerOf n.x},{integerOf n.y}" := by
      rw [placeText, coordinate, coordinate, hx.integer, hy.integer]
      rfl
    refine ⟨patched parts n.id s!" @ {integerOf n.x},{integerOf n.y}", ?_, ?_⟩
    · rw [patchLine, hfound]
      simp only [hplaceText]
      rfl
    · have hplain : ∀ t ∈ cut line, t.kind.isConnector = false := by
        intro t ht
        cases hk : t.kind.isConnector with
        | false => rfl
        | true =>
          rw [(isConnectorLine_iff line).mpr ⟨t, ht, hk⟩] at hconnector
          cases hconnector
      have halone' := halone _ hfound
      rw [id_of_node? hnode]
      rw [hline] at hplain halone' hn ⊢
      refine rewrites_patched (fun hmem => hn (by simp [hmem])) hi hid ⟨n, hnode⟩ halone' hplain
        (fun cs hcs => cut_placeText _ _ hcs) (fun cs => ?_) (isPosition_place hx hy)
      rw [toList_placeText]
      exact apart_space _

end ComponentDiagram.Print
