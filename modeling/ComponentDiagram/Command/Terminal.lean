import ComponentDiagram.Command.Host
import ComponentDiagram.Text.Control

/-! A host of which the streams are no terminals and take every character. -/
namespace ComponentDiagram.Command

/-! ## Command lines -/

/-- The options that were given, in order, and the other arguments. -/
structure Split where
  options : Options := []
  others : List String := []
deriving Repr, DecidableEq, Inhabited

def findSpec (specs : List OptionSpec) (name : String) : Option OptionSpec :=
  specs.find? fun spec => spec.name == name || spec.aliases.contains name

/-- What one argument of short options asks for: the options in it, and an option that still needs
the next argument as its value. Letters after an option with a value are that value. -/
def shortOptions (specs : List OptionSpec) : List Char → Option (Options × Option String)
  | [] => some ([], none)
  | c :: rest =>
    match findSpec specs (String.ofList ['-', c]) with
    | none => none
    | some spec =>
      if !spec.takesValue then
        (shortOptions specs rest).map fun (found, needs) => ((spec.name, none) :: found, needs)
      else if rest.isEmpty then some ([], some spec.name)
      else some ([(spec.name, some (String.ofList rest))], none)

/-- What a long option asks for, in the same form. An option without a value is given none. -/
def longOption (specs : List OptionSpec) (arg : List Char) : Option (Options × Option String) :=
  let name := String.ofList (arg.takeWhile (· != '='))
  let value := if arg.contains '=' then some ((arg.dropWhile (· != '=')).drop 1) else none
  match findSpec specs name, value with
  | none, _ => none
  | some spec, none =>
    if spec.takesValue then some ([], some spec.name) else some ([(spec.name, none)], none)
  | some spec, some v =>
    if spec.takesValue then some ([(spec.name, some (String.ofList v))], none) else none

/-- Part options from other arguments. Two dashes end the options. Unless options may stand
anywhere, the first other argument ends them too. -/
def splitArguments (specs : List OptionSpec) (anywhere : Bool) : List String → Option Split
  | [] => some {}
  | arg :: rest =>
    match arg.toList with
    | ['-', '-'] => some { others := rest }
    | '-' :: c :: cs =>
      let asked :=
        if c = '-' then longOption specs ('-' :: c :: cs) else shortOptions specs (c :: cs)
      match asked with
      | none => none
      | some (found, none) =>
        (splitArguments specs anywhere rest).map fun split =>
          { split with options := found ++ split.options }
      | some (found, some name) =>
        match rest with
        | [] => none
        | value :: rest =>
          (splitArguments specs anywhere rest).map fun split =>
            { split with options := found ++ (name, some value) :: split.options }
    | _ =>
      if anywhere then
        (splitArguments specs anywhere rest).map fun split =>
          { split with others := arg :: split.others }
      else some { others := arg :: rest }

def helpOption : OptionSpec := ⟨"--help", [], false⟩

def usage : String :=
  "Usage: umlbox [--version] [--verbose] tokens|check|build|fmt|layout [OPTIONS] FILE\n"

/-- A command line that cannot be understood ends with code two. -/
def mistaken : Parsed := .answered 2 "" usage

/-- The paths that a task is given besides its file. -/
def Task.paths : Task → List Path
  | .build manifest _ | .layout manifest _ => manifest.toList
  | _ => []

/-- A command with its arguments. A path is looked at before the arguments are counted. -/
def parseCommand (program : Options) (verb : Verb) (specs : List OptionSpec)
    (args : List String) : Parsed :=
  match splitArguments (helpOption :: specs) true args with
  | none => mistaken
  | some split =>
    let files := split.others.map Path.ofString
    if split.options.has "--help" then .answered 0 usage ""
    else if ((verb.task split.options).paths ++ files.take 1).any (!·.isUsable) then
      .broken .badPath
    else match files with
      | [file] => .command program verb split.options file
      | _ => mistaken

def parseArguments (program : List OptionSpec) (specs : Verb → List OptionSpec)
    (args : List String) : Parsed :=
  match splitArguments (helpOption :: program) false args with
  | none => mistaken
  | some split =>
    match split.options.find? fun given => given.1 == "--version" || given.1 == "--help" with
    | some given => if given.1 == "--version" then .version else .answered 0 usage ""
    | none =>
      match split.others with
      | [] => mistaken
      | name :: rest =>
        match Verb.all.find? (·.name == name) with
        | some verb => parseCommand split.options verb (specs verb) rest
        | none => mistaken

/-! ## Output -/

/-- A piece as a console shows it: in a styled text of its own nothing moves the cursor. -/
def Display.steady : Display → Display
  | .styled content style => .styled (Text.steady content) style
  | .table columns rows => .table columns rows

/-- Escape sequences are left out on the way to a stream. -/
def plainHost : Host where
  parse := parseArguments
  echo _ text := some (Text.plain text)
  display piece := some piece.steady

end ComponentDiagram.Command
