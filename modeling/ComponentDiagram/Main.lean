import ComponentDiagram.Command.Run
import ComponentDiagram.Command.Terminal

/-! The program: fetches the files that a command line names, runs the command on them, and hands on
what it leaves. -/
namespace ComponentDiagram.Command

/-- What stands at a place of the real file system, given from the root. -/
def fetch (place : List String) : IO (Option (List String × FileEntry)) := do
  let path := (← IO.currentDir) / ("/" ++ "/".intercalate place)
  if ← path.isDir then
    return some (place, .directory)
  else if ← path.pathExists then
    return some (place, .file (← IO.FS.readBinFile path))
  else
    return none

/-- The places that a path leads through, its own one last. -/
def placesOn (place : List String) : List (List String) :=
  (List.range place.length).map fun n => place.take (n + 1)

/-- The places that running a task on a file can look at. -/
def placesOf (here : FileTree) (task : Task) (file : Path) : List (List String) :=
  let place := here.place file
  let manifest := match task with
    | .build (some path) _ | .layout (some path) _ => placesOn (here.place path)
    | .build none _ | .layout none _ =>
      (List.range place.length).map fun n => place.take n ++ [Manifest.fileName]
    | _ => []
  (placesOn place ++ manifest).eraseDups

/-- The files that a command line names, seen from the current directory. -/
def filesFor (args : List String) : IO FileTree := do
  let here : FileTree := ⟨(Path.ofString (← IO.currentDir).toString).parts, []⟩
  match (plainHost.parsed args).invocation? with
  | some asked =>
    let entries ← (placesOf here asked.task asked.file).filterMapM fetch
    return { here with entries }
  | none => return here

def Cell.content : Cell → String
  | .text content | .styled content _ => content

/-- A row whose cells are filled up to the widths of their columns. -/
def rowText (widths : List Nat) (cells : List String) : String :=
  "  ".intercalate <| (cells.zip widths).map fun (cell, width) =>
    cell ++ String.ofList (List.replicate (width - cell.length) ' ')

/-- Terminal output without its styles. -/
def Display.text : Display → String
  | .styled content _ => content
  | .table columns rows =>
    let lines := columns :: rows.map (·.map Cell.content)
    let widths := (List.range columns.length).map fun column =>
      (lines.map fun line => (line.getD column "").length).foldl max 0
    "\n".intercalate (lines.map (rowText widths))

def Crash.text : Crash → String
  | .overflow => "a number is too large"
  | .badNumber => "a number cannot be read or written"
  | .notTable => "a section of the manifest is no table"
  | .isDirectory => "the manifest is a directory"
  | .nameTooLong => "the name of the manifest is too long"
  | .notText => "a file is not UTF-8"
  | .badPath => "a path holds the character zero"
  | .badToken => "a token does not fit its kind"
  | .unprintable => "a stream cannot take a character"

/-- Put the files of which the content has changed. -/
def store (before after : FileTree) : IO Unit :=
  (before.changes after).forM fun (place, content) => do
    IO.FS.writeBinFile ((← IO.currentDir) / ("/" ++ "/".intercalate place)) content

/-- The exit code for an ending; what does not end by itself is ended with a message. -/
def Stop.exitCode : Stop → IO UInt32
  | .exit code => return code.toUInt32
  | .crash cause => do
    IO.eprintln s!"Error: {cause.text}"
    return 1
  | .never => do
    IO.eprintln "Error: the layout does not end"
    return 1

/-- Run a command line; the exit code says how it ended. -/
def program (args : List String) : IO UInt32 := do
  let files ← filesFor args
  let outcome := run plainHost files args
  outcome.world.console.forM fun piece => IO.println piece.text
  IO.print outcome.world.stdout
  IO.eprint outcome.world.stderr
  store files outcome.world.files
  outcome.ending.exitCode

end ComponentDiagram.Command

def main (args : List String) : IO UInt32 := ComponentDiagram.Command.program args
