import ComponentDiagram.Command.Arguments

/-! What runs the program: it takes command lines apart, and takes the texts and the styled pieces
that a command hands out. -/
namespace ComponentDiagram.Command

/-- How a text stands out on a terminal. -/
inductive Style
  | plain
  | title
  | success
  | muted
  | keyword
  | connector
  | identifier
deriving Repr, DecidableEq, Inhabited

def Style.name : Style → String
  | plain => ""
  | title => "bold bright_cyan"
  | success => "bold green"
  | muted => "bright_black"
  | keyword => "magenta"
  | connector => "yellow"
  | identifier => "bright_white"

inductive Cell
  | text (content : String)
  | styled (content : String) (style : Style)
deriving Repr, DecidableEq, Inhabited

/-- One piece of terminal output. -/
inductive Display
  | styled (content : String) (style : Style)
  | table (columns : List String) (rows : List (List Cell))
deriving Repr, DecidableEq, Inhabited

/-- Why a command broke off without a message of its own. -/
inductive Crash
  | overflow
  | badNumber
  | notTable
  | isDirectory
  | nameTooLong
  | notText
  | badPath
  | badToken
  /-- A stream has no place for a character. -/
  | unprintable
deriving Repr, DecidableEq, Inhabited

/-- What a command line comes to. -/
inductive Parsed
  /-- It is answered without the program, with help or as a mistake. -/
  | answered (exitCode : Nat) (stdout stderr : String)
  | version
  | broken (cause : Crash)
  | command (program : Options) (verb : Verb) (options : Options) (file : Path)
deriving Repr, DecidableEq, Inhabited

def Parsed.invocation? : Parsed → Option Invocation
  | .command program verb options file =>
    some ⟨program.has "--verbose", verb.task options, file⟩
  | _ => none

inductive Stream
  | output
  | errors
deriving Repr, DecidableEq, Inhabited

structure Host where
  /-- Take a command line apart, by the options of the program and those of each command. -/
  parse : List OptionSpec → (Verb → List OptionSpec) → List String → Parsed
  /-- What a stream receives of a text: none if it cannot take it. -/
  echo : Stream → String → Option String
  /-- What the console shows of a piece: none if it cannot. -/
  display : Display → Option Display

def Host.parsed (host : Host) (args : List String) : Parsed :=
  host.parse programOptions Verb.options args

end ComponentDiagram.Command
