import ComponentDiagram.Layout.Config
import ComponentDiagram.Log
import ComponentDiagram.Source.Excerpt
import ComponentDiagram.Toml.Document

/-! Project manifests: settings of the layout and of the drawing, given in TOML. -/
namespace ComponentDiagram

inductive Theme
  | light
  | dark
deriving Repr, DecidableEq, Inhabited

namespace Theme

def name : Theme → String
  | light => "light"
  | dark => "dark"

def all : List Theme := [light, dark]

def ofName? (text : String) : Option Theme := all.find? (·.name == text)

end Theme

structure Manifest where
  layout : Layout.Config Float := .standard
  theme : Theme := .light
  /-- The file it came from. -/
  path : Option Path := none

namespace Manifest

/-- The name under which a manifest is looked for. -/
def fileName : String := "umlbox.toml"

/-- Why a manifest cannot be used. -/
inductive Fault
  /-- The author's mistake, with a message. -/
  | setting (error : LocatedError)
  /-- A section that is no table. -/
  | notTable
  /-- An integer beyond the largest number. -/
  | tooLarge
  /-- An integer of more than 4300 digits. -/
  | tooLong
deriving Repr, DecidableEq, Inhabited

/-- A mistake in the manifest at a path. -/
def mistake {β : Type} (path : Path) (message : String) : Except Fault β :=
  .error (.setting (.ofFile message (some path)))

/-- A message that ends with a value. -/
def mistakeAbout {β : Type} (path : Path) (v : Toml.Value) (message : String → String) :
    Except Fault β :=
  if v.canDisplay then mistake path (message v.display) else .error .tooLong

/-- The number of a setting: an integer or a float that is not negative. -/
def settingValue (path : Path) (key : String) (v : Toml.Value) : Except Fault Float :=
  let negative (shown : String) := s!"layout.{key}: must not be negative, got {shown}"
  match v with
  | .integer n =>
    if n < 0 then mistakeAbout path v negative
    else match floatOfInt? n with
      | some x => .ok x
      | none => .error .tooLarge
  | .float x => if x < 0 then mistakeAbout path v negative else .ok x
  | _ => mistakeAbout path v fun shown => s!"layout.{key}: expected a number, got {shown}"

/-- Settings in the order of the document; the first mistake ends the reading. -/
def readSettings (path : Path) :
    Layout.Config Float → Toml.Table → Except Fault (Layout.Config Float)
  | config, [] => .ok config
  | config, (key, v) :: rest =>
    match Layout.Setting.ofName? key with
    | none => mistake path s!"layout.{key}: unknown layout setting"
    | some s => do
      let x ← settingValue path key v
      readSettings path (config.set s x) rest

/-- The theme that a value names. -/
def readTheme (path : Path) (v : Toml.Value) : Except Fault Theme :=
  let named := match v with
    | .string text => Theme.ofName? text
    | _ => none
  match named with
  | some theme => .ok theme
  | none =>
    let choices := ", ".intercalate (Theme.all.map Theme.name)
    mistakeAbout path v fun shown =>
      s!"render.theme: unknown theme {shown} (expected one of: {choices})"

/-- A section of a document; one that is missing is empty. -/
def sectionOf (table : Toml.Table) (name : String) : Except Fault Toml.Table :=
  match table.lookup name with
  | none => .ok []
  | some (.table entries) => .ok entries
  | some _ => .error .notTable

def ofTable (path : Path) (table : Toml.Table) : Except Fault Manifest := do
  let layout ← readSettings path .standard (← sectionOf table "layout")
  let render ← sectionOf table "render"
  let theme ← match render.lookup "theme" with
    | some v => readTheme path v
    | none => pure .light
  return { layout, theme, path := some path }

/-- Sections that nothing reads are only noted. -/
def unknownSections (path : Path) (table : Toml.Table) : List Note :=
  (table.filter fun (name, _) => name != "layout" && name != "render").map fun (name, _) =>
    ⟨.warning, .settings, s!"{path.toString}: ignoring unknown section [{name}]"⟩

/-- Read the text of a manifest. -/
def ofText (path : Path) (text : String) : List Note × Except Fault Manifest :=
  match Toml.parse text with
  | .ok table => (unknownSections path table, ofTable path table)
  | .error .invalid => ([], mistake path "Invalid TOML")
  | .error .integerTooLong => ([], .error .tooLong)

/-- What using no manifest has to say, where one was asked for. -/
def missingNote (path : Path) : Note :=
  .debug .settings s!"No manifest at {path.toString}, using defaults"

end Manifest

end ComponentDiagram
