import ComponentDiagram.Manifest
import ComponentDiagram.Proofs.Numeric.Sign

/-! Which manifests are loaded, what they set, and why the others are not. A mistake of the author
is told with the key that it is about, and the first one decides. Three kinds of documents fail in
another way: a section that is no table, an integer beyond all doubles, and an integer too long to
be shown. -/
namespace ComponentDiagram

/-! ## Numbers -/

namespace Toml.Value

/-- The double that the value gives, if it is a number that is not too large. -/
def number? : Value → Option Float
  | .integer n => floatOfInt? n
  | .float x => some x
  | _ => none

def isNumber : Value → Bool
  | .integer _ | .float _ => true
  | _ => false

/-- A number less than zero. -/
inductive IsNegative : Value → Prop
  | integer {n} : n < 0 → IsNegative (.integer n)
  | float {x} : x < 0 → IsNegative (.float x)

end Toml.Value

open Toml Layout

/-- What is looked up by its name has it, where each of the names leads back to what it names. -/
private theorem find?_name_iff {β : Type} {all : List β} {name : β → String}
    (hall : ∀ b, all.find? (name · == name b) = some b) {key : String} {b : β} :
    all.find? (name · == key) = some b ↔ key = name b := by
  constructor
  · intro h
    exact (beq_iff_eq.mp (List.find?_some h :)).symm
  · rintro rfl
    exact hall b

theorem Layout.Setting.ofName?_eq_some {key : String} {s : Setting} :
    Setting.ofName? key = some s ↔ key = s.name :=
  find?_name_iff fun t => by cases t <;> rfl

theorem Layout.Config.get_set {α : Type} (c : Config α) (s t : Setting) (x : α) :
    (c.set s x).get t = if t = s then x else c.get t :=
  Config.get_ofRule _ t

namespace Manifest

/-! ## Entries -/

/-- The entry gives a setting a number that it can have. -/
def IsUsable (entry : String × Value) : Prop :=
  ∃ s x, Setting.ofName? entry.1 = some s ∧ entry.2.number? = some x ∧ ¬ entry.2.IsNegative

/-- What is said of a value that no setting can have, for a key and the value as it is shown. -/
inductive IsMisfit : Value → (String → String → String) → Prop
  | noNumber {v} : v.isNumber = false →
      IsMisfit v fun key shown => s!"layout.{key}: expected a number, got {shown}"
  | negative {v} : v.IsNegative →
      IsMisfit v fun key shown => s!"layout.{key}: must not be negative, got {shown}"

/-- The author's mistake in the manifest at a path. -/
def mistakeAt (path : Path) (message : String) : Fault :=
  .setting (.ofFile message (some path))

/-- How the loading ends at an entry that is not usable. -/
inductive IsBad (path : Path) : String × Value → Fault → Prop
  | unknown {key v} : Setting.ofName? key = none →
      IsBad path (key, v) (mistakeAt path s!"layout.{key}: unknown layout setting")
  | misfit {key v s message} : Setting.ofName? key = some s → IsMisfit v message →
      v.canDisplay = true → IsBad path (key, v) (mistakeAt path (message key v.display))
  | tooLong {key v s message} : Setting.ofName? key = some s → IsMisfit v message →
      v.canDisplay = false → IsBad path (key, v) .tooLong
  | tooLarge {key n s} : Setting.ofName? key = some s → 0 ≤ n → floatOfInt? n = none →
      IsBad path (key, .integer n) .tooLarge

/-- The numbers that entries give a setting. -/
def numbersFor (s : Setting) (entries : Table) : List Float :=
  entries.filterMap fun entry => if entry.1 = s.name then entry.2.number? else none

section

variable {path : Path} {key : String} {v : Value}

theorem mistakeAbout_error {β : Type} {message : String → String} {fault : Fault} :
    (mistakeAbout path v message : Except Fault β) = .error fault ↔
      v.canDisplay = true ∧ fault = mistakeAt path (message v.display) ∨
        v.canDisplay = false ∧ fault = .tooLong := by
  rw [mistakeAbout]
  cases v.canDisplay with
  | true => simp [mistake, mistakeAt, eq_comm]
  | false => simp [eq_comm]

theorem mistakeAbout_ne_ok {β : Type} {message : String → String} {b : β} :
    (mistakeAbout path v message : Except Fault β) ≠ .ok b := by
  rw [mistakeAbout]
  split <;> exact fun h => nomatch h

theorem settingValue_usable {x : Float} (hx : v.number? = some x) (hn : ¬ v.IsNegative) :
    settingValue path key v = .ok x := by
  cases v with
  | integer n =>
    have hn : ¬ n < 0 := fun h => hn (.integer h)
    rw [Value.number?] at hx
    simp only [settingValue, if_neg hn, hx]
  | float y =>
    have hn : ¬ y < 0 := fun h => hn (.float h)
    cases hx
    simp only [settingValue, if_neg hn]
  | _ => cases hx

theorem settingValue_misfit {message : String → String → String} (h : IsMisfit v message) :
    settingValue path key v = mistakeAbout path v (message key) := by
  cases h with
  | noNumber hv =>
    cases v with
    | integer n => cases hv
    | float x => cases hv
    | _ => simp only [settingValue]
  | negative hv =>
    cases hv with
    | integer hn => exact if_pos hn
    | float hx => exact if_pos hx

theorem settingValue_tooLarge {n : Int} (hn : 0 ≤ n) (h : floatOfInt? n = none) :
    settingValue path key (.integer n) = .error .tooLarge := by
  simp only [settingValue, if_neg (Int.not_lt.mpr hn), h]

/-- A value is usable, or not one for a setting, or an integer that is no double. -/
theorem value_cases (v : Value) : (∃ x, v.number? = some x ∧ ¬ v.IsNegative) ∨
    (∃ message, IsMisfit v message) ∨ ∃ n, v = .integer n ∧ 0 ≤ n ∧ floatOfInt? n = none := by
  by_cases hneg : v.IsNegative
  · exact .inr (.inl ⟨_, .negative hneg⟩)
  cases hnumber : v.number? with
  | some x => exact .inl ⟨x, rfl, hneg⟩
  | none =>
    cases v with
    | integer n => exact .inr (.inr ⟨n, rfl, Int.not_lt.mp fun h => hneg (.integer h), hnumber⟩)
    | float x => cases hnumber
    | _ => exact .inr (.inl ⟨_, .noNumber rfl⟩)

theorem settingValue_ok {x : Float} :
    settingValue path key v = .ok x ↔ v.number? = some x ∧ ¬ v.IsNegative := by
  refine ⟨fun h => ?_, fun ⟨hx, hn⟩ => settingValue_usable hx hn⟩
  rcases value_cases v with ⟨y, hy, hn⟩ | ⟨message, hm⟩ | ⟨n, rfl, hn, hlarge⟩
  · rw [settingValue_usable hy hn] at h
    cases h
    exact ⟨hy, hn⟩
  · rw [settingValue_misfit hm] at h
    exact absurd h mistakeAbout_ne_ok
  · rw [settingValue_tooLarge hn hlarge] at h
    cases h

theorem settingValue_error {s : Setting} (hs : Setting.ofName? key = some s) {fault : Fault} :
    settingValue path key v = .error fault ↔ IsBad path (key, v) fault := by
  constructor
  · intro h
    rcases value_cases v with ⟨y, hy, hn⟩ | ⟨message, hm⟩ | ⟨n, rfl, hn, hlarge⟩
    · rw [settingValue_usable hy hn] at h
      cases h
    · rw [settingValue_misfit hm] at h
      rcases mistakeAbout_error.mp h with ⟨hv, rfl⟩ | ⟨hv, rfl⟩
      · exact .misfit hs hm hv
      · exact .tooLong hs hm hv
    · rw [settingValue_tooLarge hn hlarge] at h
      cases h
      exact .tooLarge hs hn hlarge
  · intro h
    cases h with
    | unknown hnone => rw [hs] at hnone; cases hnone
    | misfit _ hm hv => rw [settingValue_misfit hm, mistakeAbout_error]; exact .inl ⟨hv, rfl⟩
    | tooLong _ hm hv => rw [settingValue_misfit hm, mistakeAbout_error]; exact .inr ⟨hv, rfl⟩
    | tooLarge _ hn hlarge => exact settingValue_tooLarge hn hlarge

end

/-! ## Settings -/

section

variable {path : Path}

theorem IsBad.not_usable {entry : String × Value} {fault : Fault} (h : IsBad path entry fault) :
    ¬ IsUsable entry := by
  obtain ⟨key, v⟩ := entry
  rintro ⟨s, x, hs, hx, hn⟩
  cases (settingValue_usable hx hn).symm.trans ((settingValue_error hs).mpr h)

theorem readSettings_usable {key : String} {v : Value} {s : Setting} {x : Float}
    (hs : Setting.ofName? key = some s) (hx : v.number? = some x) (hn : ¬ v.IsNegative)
    (config : Config Float) (rest : Table) :
    readSettings path config ((key, v) :: rest) = readSettings path (config.set s x) rest := by
  rw [readSettings, hs]
  dsimp only
  rw [settingValue_usable hx hn]
  rfl

theorem readSettings_bad {entry : String × Value} {fault : Fault} (h : IsBad path entry fault)
    (config : Config Float) (rest : Table) :
    readSettings path config (entry :: rest) = .error fault := by
  obtain ⟨key, v⟩ := entry
  rw [readSettings]
  cases hs : Setting.ofName? key with
  | none =>
    cases h with
    | unknown => rfl
    | misfit hs' => cases hs.symm.trans hs'
    | tooLong hs' => cases hs.symm.trans hs'
    | tooLarge hs' => cases hs.symm.trans hs'
  | some s =>
    dsimp only
    rw [(settingValue_error hs).mpr h]
    rfl

/-- An entry is usable, or the loading ends at it. -/
theorem entry_cases (path : Path) (entry : String × Value) :
    IsUsable entry ∨ ∃ fault, IsBad path entry fault := by
  obtain ⟨key, v⟩ := entry
  cases hs : Setting.ofName? key with
  | none => exact .inr ⟨_, .unknown hs⟩
  | some s =>
    cases h : settingValue path key v with
    | ok x => exact .inl ⟨s, x, hs, settingValue_ok.mp h⟩
    | error fault => exact .inr ⟨fault, (settingValue_error hs).mp h⟩

theorem numbersFor_cons {key : String} {v : Value} {s : Setting} {x : Float}
    (hs : Setting.ofName? key = some s) (hx : v.number? = some x) (t : Setting) (rest : Table) :
    numbersFor t ((key, v) :: rest) =
      if t = s then x :: numbersFor t rest else numbersFor t rest := by
  obtain rfl := Setting.ofName?_eq_some.mp hs
  by_cases ht : t = s
  · subst ht
    simp [numbersFor, hx]
  · have hname : s.name ≠ t.name := fun hname => ht (by
      have hsame := Setting.ofName?_eq_some.mpr hname
      exact (Option.some.inj (hs.symm.trans hsame)).symm)
    simp [numbersFor, hname, ht]

/-- Settings are read from usable entries, and each is the last number given for it. -/
theorem readSettings_ok {entries : Table} {config c : Config Float} :
    readSettings path config entries = .ok c ↔ (∀ entry ∈ entries, IsUsable entry) ∧
      ∀ s, c.get s = (numbersFor s entries).getLastD (config.get s) := by
  induction entries generalizing config with
  | nil =>
    rw [readSettings]
    constructor
    · intro h
      cases h
      exact ⟨List.forall_mem_nil _, fun _ => rfl⟩
    · rintro ⟨-, h⟩
      rw [← Config.ofRule_get c, ← Config.ofRule_get config]
      exact congrArg _ (congrArg Config.ofRule (funext fun s => (h s).symm))
  | cons entry rest ih =>
    rcases entry_cases path entry with ⟨s, x, hs, hx, hn⟩ | ⟨fault, hbad⟩
    · obtain ⟨key, v⟩ := entry
      have hstep (t : Setting) : (numbersFor t ((key, v) :: rest)).getLastD (config.get t) =
          (numbersFor t rest).getLastD ((config.set s x).get t) := by
        rw [numbersFor_cons hs hx, Config.get_set]
        split
        · exact List.getLastD_cons
        · rfl
      rw [readSettings_usable hs hx hn, ih, List.forall_mem_cons]
      simp only [hstep]
      exact ⟨fun ⟨hrest, hget⟩ => ⟨⟨⟨s, x, hs, hx, hn⟩, hrest⟩, hget⟩,
        fun ⟨hall, hget⟩ => ⟨hall.2, hget⟩⟩
    · rw [readSettings_bad hbad]
      refine iff_of_false (fun h => nomatch h) fun ⟨hall, _⟩ => ?_
      exact hbad.not_usable (hall entry (List.mem_cons_self ..))

/-- The first entry that is not usable ends the reading. -/
theorem readSettings_error {entries : Table} {config : Config Float} {fault : Fault} :
    readSettings path config entries = .error fault ↔ ∃ before entry after,
      entries = before ++ entry :: after ∧ (∀ u ∈ before, IsUsable u) ∧
        IsBad path entry fault := by
  induction entries generalizing config with
  | nil => simp [readSettings]
  | cons entry rest ih =>
    rcases entry_cases path entry with husable | ⟨fault', hbad⟩
    · obtain ⟨s, x, hs, hx, hn⟩ := id husable
      rw [readSettings_usable hs hx hn, ih]
      constructor
      · rintro ⟨before, bad, after, rfl, hall, hbad⟩
        exact ⟨entry :: before, bad, after, rfl, List.forall_mem_cons.mpr ⟨husable, hall⟩, hbad⟩
      · rintro ⟨before, bad, after, he, hall, hbad⟩
        cases before with
        | nil =>
          cases he
          exact absurd husable hbad.not_usable
        | cons first before =>
          cases he
          exact ⟨before, bad, after, rfl, (List.forall_mem_cons.mp hall).2, hbad⟩
    · rw [readSettings_bad hbad]
      constructor
      · intro h
        cases h
        exact ⟨[], entry, rest, rfl, List.forall_mem_nil _, hbad⟩
      · rintro ⟨before, bad, after, he, hall, hbad'⟩
        cases before with
        | nil =>
          cases he
          exact (readSettings_bad hbad config rest).symm.trans (readSettings_bad hbad' config rest)
        | cons first before =>
          cases he
          exact absurd (hall _ (List.mem_cons_self ..)) hbad.not_usable

end

/-! ## Documents -/

/-- The entries of a section; one that is missing has none. -/
inductive IsSection (table : Table) (name : String) : Table → Prop
  | missing : table.lookup name = none → IsSection table name []
  | table {entries} : table.lookup name = some (.table entries) → IsSection table name entries

/-- The section is given as something else than a table. -/
def IsNoTable (table : Table) (name : String) : Prop :=
  ∃ v, table.lookup name = some v ∧ ∀ entries, v ≠ .table entries

/-- The theme that the drawing section names, or the light one. -/
inductive NamesTheme (render : Table) : Theme → Prop
  | missing : render.lookup "theme" = none → NamesTheme render .light
  | named {theme : Theme} : render.lookup "theme" = some (.string theme.name) →
      NamesTheme render theme

/-- What is said of a value that names no theme, as it is shown. -/
def unknownTheme (shown : String) : String :=
  let choices := ", ".intercalate (Theme.all.map Theme.name)
  s!"render.theme: unknown theme {shown} (expected one of: {choices})"

/-- How the loading ends at a theme that there is not. -/
inductive IsBadTheme (path : Path) (render : Table) : Fault → Prop
  | unknown {v} : render.lookup "theme" = some v → (∀ theme : Theme, v ≠ .string theme.name) →
      v.canDisplay = true → IsBadTheme path render (mistakeAt path (unknownTheme v.display))
  | tooLong {v} : render.lookup "theme" = some v → (∀ theme : Theme, v ≠ .string theme.name) →
      v.canDisplay = false → IsBadTheme path render .tooLong

/-- A manifest is what its document says: each setting is the last number given for it, or the
standard one. -/
structure IsLoaded (path : Path) (table : Table) (m : Manifest) : Prop where
  layout : ∃ entries, IsSection table "layout" entries ∧ (∀ entry ∈ entries, IsUsable entry) ∧
    ∀ s, m.layout.get s = (numbersFor s entries).getLastD (Config.standard.get s)
  theme : ∃ render, IsSection table "render" render ∧ NamesTheme render m.theme
  path : m.path = some path

/-- Why a document is not loaded: the layout section comes first, in the order of its entries, and
then the drawing section. -/
inductive IsRefused (path : Path) (table : Table) : Fault → Prop
  | layout : IsNoTable table "layout" → IsRefused path table .notTable
  | entry {before entry after fault} : IsSection table "layout" (before ++ entry :: after) →
      (∀ u ∈ before, IsUsable u) → IsBad path entry fault → IsRefused path table fault
  | render {entries} : IsSection table "layout" entries → (∀ entry ∈ entries, IsUsable entry) →
      IsNoTable table "render" → IsRefused path table .notTable
  | theme {entries render fault} : IsSection table "layout" entries →
      (∀ entry ∈ entries, IsUsable entry) → IsSection table "render" render →
      IsBadTheme path render fault → IsRefused path table fault

private theorem bind_ok {β γ : Type} {x : Except Fault β} {f : β → Except Fault γ} {c : γ} :
    (x >>= f) = .ok c ↔ ∃ b, x = .ok b ∧ f b = .ok c := by
  cases x <;> simp [bind, Except.bind]

private theorem bind_error {β γ : Type} {x : Except Fault β} {f : β → Except Fault γ}
    {fault : Fault} : (x >>= f) = .error fault ↔
      x = .error fault ∨ ∃ b, x = .ok b ∧ f b = .error fault := by
  cases x <;> simp [bind, Except.bind]

variable {path : Path} {table : Table}

theorem sectionOf_ok {name : String} {entries : Table} :
    sectionOf table name = .ok entries ↔ IsSection table name entries := by
  rw [sectionOf]
  constructor
  · intro h
    split at h
    · cases h
      exact .missing ‹_›
    · cases h
      exact .table ‹_›
    · cases h
  · intro h
    cases h with
    | missing h => simp only [h]
    | table h => simp only [h]

theorem sectionOf_error {name : String} {fault : Fault} :
    sectionOf table name = .error fault ↔ IsNoTable table name ∧ fault = .notTable := by
  rw [sectionOf]
  constructor
  · intro h
    split at h
    · cases h
    · cases h
    · rename_i v hother hv
      cases h
      exact ⟨⟨v, hv, fun entries he => hother entries he⟩, rfl⟩
  · rintro ⟨⟨v, hv, hother⟩, rfl⟩
    rw [hv]
    cases v with
    | table entries => exact absurd rfl (hother entries)
    | _ => rfl

/-- The theme as the drawing section gives it. -/
def themeOf (path : Path) (render : Table) : Except Fault Theme :=
  match render.lookup "theme" with
  | some v => readTheme path v
  | none => pure .light

theorem Theme.ofName?_eq_some {text : String} {theme : Theme} :
    Theme.ofName? text = some theme ↔ text = theme.name :=
  find?_name_iff fun named => by cases named <;> rfl

private theorem readTheme_named (theme : Theme) :
    readTheme path (.string theme.name) = .ok theme := by
  have hnamed := Theme.ofName?_eq_some.mpr (rfl : theme.name = theme.name)
  simp only [readTheme, hnamed]

private theorem readTheme_unknown {v : Value} (h : ∀ theme : Theme, v ≠ .string theme.name) :
    readTheme path v = mistakeAbout path v unknownTheme := by
  unfold readTheme
  dsimp only
  split
  · rename_i theme hnamed
    split at hnamed
    · exact absurd (congrArg _ (Theme.ofName?_eq_some.mp hnamed)) (h theme)
    · cases hnamed
  · rfl

theorem themeOf_ok {render : Table} {theme : Theme} :
    themeOf path render = .ok theme ↔ NamesTheme render theme := by
  rw [themeOf]
  constructor
  · intro h
    split at h
    · rename_i v hv
      by_cases hnamed : ∃ theme : Theme, v = .string theme.name
      · obtain ⟨theme, rfl⟩ := hnamed
        rw [readTheme_named] at h
        cases h
        exact .named hv
      · rw [readTheme_unknown fun theme he => hnamed ⟨theme, he⟩] at h
        exact absurd h mistakeAbout_ne_ok
    · cases h
      exact .missing ‹_›
  · intro h
    cases h with
    | missing h => simp only [h]; rfl
    | named h => simp only [h, readTheme_named]

theorem themeOf_error {render : Table} {fault : Fault} :
    themeOf path render = .error fault ↔ IsBadTheme path render fault := by
  rw [themeOf]
  constructor
  · intro h
    split at h
    · rename_i v hv
      by_cases hnamed : ∃ theme : Theme, v = .string theme.name
      · obtain ⟨theme, rfl⟩ := hnamed
        rw [readTheme_named] at h
        cases h
      · have hother : ∀ theme : Theme, v ≠ .string theme.name := fun theme he => hnamed ⟨theme, he⟩
        rw [readTheme_unknown hother] at h
        rcases mistakeAbout_error.mp h with ⟨hshown, rfl⟩ | ⟨hlong, rfl⟩
        · exact .unknown hv hother hshown
        · exact .tooLong hv hother hlong
    · cases h
  · intro h
    cases h with
    | unknown hv hother hshown =>
      simp only [hv, readTheme_unknown hother]
      exact mistakeAbout_error.mpr (.inl ⟨hshown, rfl⟩)
    | tooLong hv hother hlong =>
      simp only [hv, readTheme_unknown hother]
      exact mistakeAbout_error.mpr (.inr ⟨hlong, rfl⟩)

theorem ofTable_eq : ofTable path table = sectionOf table "layout" >>= fun entries =>
    readSettings path .standard entries >>= fun layout => sectionOf table "render" >>= fun render =>
      themeOf path render >>= fun theme => .ok { layout, theme, path := some path } := by
  rw [ofTable]
  refine bind_congr fun entries => bind_congr fun layout => bind_congr fun render => ?_
  rw [themeOf]
  cases render.lookup "theme" <;> rfl

theorem ofTable_ok {m : Manifest} : ofTable path table = .ok m ↔ IsLoaded path table m := by
  rw [ofTable_eq]
  constructor
  · intro h
    obtain ⟨entries, hentries, h⟩ := bind_ok.mp h
    obtain ⟨layout, hlayout, h⟩ := bind_ok.mp h
    obtain ⟨render, hrender, h⟩ := bind_ok.mp h
    obtain ⟨theme, htheme, h⟩ := bind_ok.mp h
    cases h
    exact ⟨⟨entries, sectionOf_ok.mp hentries, readSettings_ok.mp hlayout⟩,
      ⟨render, sectionOf_ok.mp hrender, themeOf_ok.mp htheme⟩, rfl⟩
  · rintro ⟨⟨entries, hentries, hlayout⟩, ⟨render, hrender, htheme⟩, hpath⟩
    refine bind_ok.mpr ⟨entries, sectionOf_ok.mpr hentries, bind_ok.mpr ⟨m.layout,
      readSettings_ok.mpr hlayout, bind_ok.mpr ⟨render, sectionOf_ok.mpr hrender, bind_ok.mpr
        ⟨m.theme, themeOf_ok.mpr htheme, ?_⟩⟩⟩⟩
    rw [← hpath]

/-- Usable entries are read whatever the settings were. -/
theorem exists_settings {entries : Table} (h : ∀ entry ∈ entries, IsUsable entry)
    (config : Config Float) : ∃ c, readSettings path config entries = .ok c :=
  ⟨.ofRule fun s => (numbersFor s entries).getLastD (config.get s),
    readSettings_ok.mpr ⟨h, fun s => Config.get_ofRule _ s⟩⟩

theorem ofTable_error {fault : Fault} :
    ofTable path table = .error fault ↔ IsRefused path table fault := by
  rw [ofTable_eq]
  simp only [bind_error, sectionOf_ok, sectionOf_error, readSettings_error, themeOf_error]
  constructor
  · rintro (⟨hno, rfl⟩ | ⟨entries, hentries, h⟩)
    · exact .layout hno
    rcases h with ⟨before, entry, after, rfl, hall, hbad⟩ | ⟨layout, hlayout, h⟩
    · exact .entry hentries hall hbad
    have husable := (readSettings_ok.mp hlayout).1
    rcases h with ⟨hno, rfl⟩ | ⟨render, hrender, hbad | ⟨theme, -, h⟩⟩
    · exact .render hentries husable hno
    · exact .theme hentries husable hrender hbad
    · cases h
  · intro h
    cases h with
    | layout hno => exact .inl ⟨hno, rfl⟩
    | @entry before entry after _ hentries hall hbad =>
      exact .inr ⟨_, hentries, .inl ⟨before, entry, after, rfl, hall, hbad⟩⟩
    | @render entries hentries hall hno =>
      obtain ⟨layout, hlayout⟩ := exists_settings hall .standard
      exact .inr ⟨entries, hentries, .inr ⟨layout, hlayout, .inl ⟨hno, rfl⟩⟩⟩
    | @theme entries render _ hentries hall hrender hbad =>
      obtain ⟨layout, hlayout⟩ := exists_settings hall .standard
      exact .inr ⟨entries, hentries, .inr ⟨layout, hlayout, .inr ⟨render, hrender, .inl hbad⟩⟩⟩

/-! ## What is loaded -/

theorem standard_nonneg (s : Setting) : 0 ≤ (Config.standard : Config Float).get s := by
  cases s <;> decide +kernel

/-- The number of a usable entry is at least zero, if it is one. -/
theorem IsUsable.nonneg {entry : String × Value} (h : IsUsable entry) {x : Float}
    (hx : entry.2.number? = some x) : 0 ≤ x ∨ x.isNaN = true ∧ entry.2 = .float x := by
  obtain ⟨-, -, -, -, hn⟩ := h
  obtain ⟨key, v⟩ := entry
  cases v with
  | integer n => exact .inl (floatOfInt?_nonneg (Int.not_lt.mp fun h => hn (.integer h)) hx)
  | float y =>
    cases hx
    exact (nonneg_or_isNaN fun h => hn (.float h)).imp_right fun hnan => ⟨hnan, rfl⟩
  | _ => cases hx

theorem mem_numbersFor {s : Setting} {entries : Table} {x : Float} (h : x ∈ numbersFor s entries) :
    ∃ v, (s.name, v) ∈ entries ∧ v.number? = some x := by
  obtain ⟨⟨key, v⟩, hmem, hx⟩ := List.mem_filterMap.mp h
  dsimp only at hx
  split at hx
  · rename_i hkey
    exact ⟨v, hkey ▸ hmem, hx⟩
  · cases hx

/-- A setting that is loaded is at least zero, unless the document says that it is no number. -/
theorem IsLoaded.nonneg {m : Manifest} (h : IsLoaded path table m) (s : Setting) :
    0 ≤ m.layout.get s ∨ (m.layout.get s).isNaN = true ∧
      ∃ entries, IsSection table "layout" entries ∧
        (s.name, .float (m.layout.get s)) ∈ entries := by
  obtain ⟨entries, hentries, husable, hget⟩ := h.layout
  rw [hget]
  have hlast : (numbersFor s entries).getLastD (Config.standard.get s) ∈ _ :=
    List.getLastD_mem_cons
  rcases List.mem_cons.mp hlast with hstandard | hmem
  · rw [hstandard]
    exact .inl (standard_nonneg s)
  · obtain ⟨v, hv, hx⟩ := mem_numbersFor hmem
    refine ((husable _ hv).nonneg hx).imp_right fun ⟨hnan, he⟩ => ⟨hnan, entries, hentries, ?_⟩
    dsimp only at he
    rwa [← he]

/-- Every document is loaded or refused. What is loaded is what the document says, and usable as far
as the document says numbers. -/
theorem ofTable_spec (path : Path) (table : Table) :
    (∀ m, ofTable path table = .ok m ↔ IsLoaded path table m) ∧
    (∀ fault, ofTable path table = .error fault ↔ IsRefused path table fault) ∧
    ∀ m, IsLoaded path table m → ∀ s, 0 ≤ m.layout.get s ∨ (m.layout.get s).isNaN = true ∧
      ∃ entries, IsSection table "layout" entries ∧ (s.name, .float (m.layout.get s)) ∈ entries :=
  ⟨fun _ => ofTable_ok, fun _ => ofTable_error, fun _ h => h.nonneg⟩

/-- A layout that is no table is not told as a mistake. -/
theorem ofTable_escapes : ¬ ∀ path table,
    (∃ e, ofTable path table = .error (.setting e)) ∨
      ∃ m, ofTable path table = .ok m ∧ ∀ s, 0 ≤ m.layout.get s := by
  intro h
  rcases h (.ofString "umlbox.toml") [("layout", .integer 5)] with ⟨e, he⟩ | ⟨m, hm, -⟩
  · cases he
  · cases hm

example : ∃ m, ofTable (.ofString "umlbox.toml")
    [("layout", .table [("leaf_width", .float (Float.ofBits 0x7FF8000000000000))])] = .ok m ∧
      m.layout.leafWidth.isNaN = true :=
  ⟨_, rfl, by decide +kernel⟩

end Manifest

end ComponentDiagram
