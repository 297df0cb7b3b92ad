import ComponentDiagram.Path

/-! What may stand on a command line: options of the program before the command, then the command's
own. Taking a command line apart is left to what runs the program. -/
namespace ComponentDiagram.Command

/-- An option under all its names; the first is the one it goes by. -/
structure OptionSpec where
  name : String
  aliases : List String := []
  takesValue : Bool := false
deriving Repr, DecidableEq, Inhabited

/-- The options that were given, in order, with their values. -/
abbrev Options := List (String × Option String)

namespace Options

def has (options : Options) (name : String) : Bool := options.any (·.1 == name)

/-- The last value given for an option. -/
def value? (options : Options) (name : String) : Option String :=
  (options.reverse.lookup name).join

end Options

/-- How `check` reports. -/
inductive ReportFormat
  | human
  | editor
deriving Repr, DecidableEq, Inhabited

/-- What is to be done with a diagram file. -/
inductive Task
  | tokens (blanks : Bool)
  | check (format : ReportFormat)
  | build (manifest : Option Path) (withLayout : Bool)
  | fmt (write : Bool)
  | layout (manifest : Option Path) (write : Bool)
deriving Repr, DecidableEq, Inhabited

def programOptions : List OptionSpec := [⟨"--version", ["-V"], false⟩, ⟨"--verbose", ["-v"], false⟩]

def writeOption : OptionSpec := ⟨"--write", ["-w"], false⟩

def manifestOption : OptionSpec := ⟨"--manifest", ["-m"], true⟩

/-- The commands. Each takes one file. -/
inductive Verb
  | tokens
  | check
  | build
  | fmt
  | layout
deriving Repr, DecidableEq, Inhabited

namespace Verb

def all : List Verb := [tokens, check, build, fmt, layout]

def name : Verb → String
  | tokens => "tokens"
  | check => "check"
  | build => "build"
  | fmt => "fmt"
  | layout => "layout"

def options : Verb → List OptionSpec
  | tokens => [⟨"--trivia", [], false⟩]
  | check => [⟨"--format", ["-f"], true⟩]
  | build => [manifestOption, ⟨"--no-layout", [], false⟩]
  | fmt => [writeOption]
  | layout => [manifestOption, writeOption]

/-- The task that a command with options describes. -/
def task (options : Options) : Verb → Task
  | tokens => .tokens (options.has "--trivia")
  | check => .check (if options.value? "--format" = some "vscode" then .editor else .human)
  | build => .build (manifest options) (!options.has "--no-layout")
  | fmt => .fmt (options.has "--write")
  | layout => .layout (manifest options) (options.has "--write")
where
  manifest (options : Options) : Option Path := (options.value? "--manifest").map Path.ofString

end Verb

/-- A command that was understood. -/
structure Invocation where
  verbose : Bool
  task : Task
  file : Path
deriving Repr, DecidableEq, Inhabited

end ComponentDiagram.Command
