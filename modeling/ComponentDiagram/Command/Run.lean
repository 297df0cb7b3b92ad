import ComponentDiagram.Build.Route
import ComponentDiagram.Command.Output
import ComponentDiagram.Grammar.Statement
import ComponentDiagram.Json.Diagram
import ComponentDiagram.Layout.Engine
import ComponentDiagram.Manifest
import ComponentDiagram.Print.Document
import ComponentDiagram.Print.Positions

/-! The commands: show tokens, check, build, format and lay out a diagram file. -/
namespace ComponentDiagram.Command

def version : String := "0.3.0"

/-- The text of a file, or the end of the command. -/
def decode (content : ByteArray) : Script String :=
  match decodeText content with
  | some text => pure text
  | none => Script.crash .notText

def readSource (file : Path) : Script String := do
  match (← get).files.read file with
  | .ok content => decode content
  | .error e => Script.fail s!"Error: cannot read {file.toString}: {e.text}"

def usableManifest : Except Manifest.Fault Manifest → Script Manifest
  | .ok manifest => pure manifest
  | .error (.setting e) => Script.fail s!"Config error: {e.text}"
  | .error .notTable => Script.crash .notTable
  | .error .tooLarge => Script.crash .overflow
  | .error .tooLong => Script.crash .badNumber

/-- The manifest at a path; a missing one means the standard settings. -/
def loadManifest (path : Path) : Script Manifest := do
  match (← get).files.read path with
  | .ok content =>
    let (notes, manifest) := Manifest.ofText path (← decode content)
    Script.log notes
    usableManifest manifest
  | .error .isDirectory => Script.crash .isDirectory
  | .error .nameTooLong => Script.crash .nameTooLong
  | .error _ =>
    Script.log [Manifest.missingNote path]
    return {}

/-- The manifest that was asked for, or the nearest one above the file. -/
def resolveManifest (file : Path) (asked : Option Path) : Script Manifest := do
  match asked with
  | some path => loadManifest path
  | none =>
    match (← get).files.findAbove Manifest.fileName file.parent with
    | some path => loadManifest path
    | none => return {}

/-- A diagnostic as a note, with the file it is about. -/
def diagnosticNote (file : Option Path) (d : Diagnostic) : Note :=
  ⟨.warning, .reading, s!"{ErrorContext.fileName file}:{d.line}:{d.column}: {d.message}"⟩

/-- How a failure to read a diagram is reported. -/
def reportFailure {β : Type} (file : Path) (format : ReportFormat) : Grammar.Failure → Script β
  | .syntaxError e =>
    match format with
    | .human => Script.fail s!"Parse error: {e.text}"
    | .editor => Script.fail s!"{file.toString}:{e.line}:{e.column}: error: {e.message}"
  | .coordinateTooLong => Script.crash .badNumber
  | .coordinateTooLarge => Script.crash .overflow
  | .malformedNumber _ => Script.crash .badNumber
  | .unknownSide _ | .unknownArrow _ | .badInterface _ => Script.crash .badToken

def parseOrFail (text : String) (file : Path) (format : ReportFormat) :
    Script (Document Float) := do
  let (read, state) := Grammar.readInput (α := Float) (Grammar.Input.ofText text (some file))
  Script.log (state.diagnostics.map (diagnosticNote (some file)))
  match read with
  | .ok doc => return doc
  | .error e => reportFailure file format e

def bounded {β : Type} : Except Unbounded β → Script β
  | .ok b => pure b
  | .error .infinite => Script.crash .overflow
  | .error .notANumber => Script.crash .badNumber

/-- How a kind of token stands out in a listing. -/
def tokenStyle : TokenKind → Style
  | .portWord | .onWord | .withWord | .side => .keyword
  | .arrow | .delegateArrow | .interfaceConnector => .connector
  | .identifier => .identifier
  | .blank | .newline | .endOfInput => .muted
  | _ => .plain

def tokenRow (t : Token) : List Cell :=
  [.text s!"{t.position.line}:{t.position.column}", .styled t.kind.name (tokenStyle t.kind),
    .text (Text.quoted t.text)]

def runTokens (file : Path) (blanks : Bool) : Script Unit := do
  let text ← readSource file
  Script.display (.table ["Pos", "Type", "Value"] ((Source.tokens text blanks).map tokenRow))

/-- A node in a table, moved in by its depth. -/
def nodeRow (d : Diagram Float) (n : FlatNode Float) : List Cell :=
  let pad := String.ofList (List.replicate (2 * n.depth) ' ')
  [.text (pad ++ n.id), .text n.label, .text (toString (d.portsOf n.id).length)]

def showSummary (d : Diagram Float) : Script Unit := do
  Script.displayStyled d.type.name .title
  Script.display (.table ["Node", "Label", "Ports"] (d.nodes.map (nodeRow d)))
  Script.displayStyled (s!"{d.nodes.length} nodes, {d.ports.length} ports, " ++
    s!"{d.connectors.length} connectors") .muted

def runCheck (file : Path) (format : ReportFormat) : Script Unit := do
  let text ← readSource file
  let doc ← parseOrFail text file format
  match format with
  | .editor =>
    doc.diagnostics.forM fun d => Script.complain
      s!"{file.toString}:{d.line}:{d.column}: {d.severity}: {d.message}"
    if doc.diagnostics.isEmpty then Script.printLine "::notice: Validation successful"
  | .human =>
    Script.log (Build.notes doc)
    showSummary (Build.diagram doc)
    doc.diagnostics.forM fun d => Script.printLine
      s!"WARNING: {file.toString}:{d.line}:{d.column}: {d.message}"
    if doc.diagnostics.isEmpty then Script.printLine "OK: diagram is valid."

/-- The flat view of a document, laid out with the settings of a manifest. -/
def laidOut (doc : Document Float) (manifest : Manifest) : Script (Diagram Float) := do
  Script.log (Layout.notes (Build.diagram doc) manifest.layout)
  match Layout.layout (Build.diagram doc) manifest.layout with
  | some d => return d
  | none => throw .never

def runBuild (file : Path) (asked : Option Path) (withLayout : Bool) : Script Unit := do
  let text ← readSource file
  let manifest ← resolveManifest file asked
  let doc ← parseOrFail text file .human
  Script.log (Build.notes doc)
  let d ← if withLayout then laidOut doc manifest else pure (Build.diagram doc)
  Script.printLine <| Json.Value.text 0 <| .object
    [("theme", .string manifest.theme.name), ("diagram", Json.ofDiagram d),
      ("diagnostics", .array (doc.diagnostics.map Json.ofDiagnostic))]

/-- Put a new text into the file, or print it. -/
def deliver (file : Path) (text : String) (write : Bool) (success : String) : Script Unit :=
  if write then do
    modify fun w => { w with files := w.files.write file text.toUTF8 }
    Script.displayStyled s!"✓ {success} {file.toString}" .success
  else Script.print text

def runFmt (file : Path) (write : Bool) : Script Unit := do
  let text ← readSource file
  let doc ← parseOrFail text file .human
  deliver file (← bounded (Print.document doc)) write "Formatted"

def runLayout (file : Path) (asked : Option Path) (write : Bool) : Script Unit := do
  let text ← readSource file
  let manifest ← resolveManifest file asked
  let doc ← parseOrFail text file .human
  Script.log (Build.notes doc)
  let d ← laidOut doc manifest
  let updated ← bounded (Print.updatePositions text d)
  Script.log [.debug .writing s!"Updated positions on {Print.patchedCount text d} lines"]
  deliver file updated write "Updated positions in"

def runTask (file : Path) : Task → Script Unit
  | .tokens blanks => runTokens file blanks
  | .check format => runCheck file format
  | .build manifest withLayout => runBuild file manifest withLayout
  | .fmt write => runFmt file write
  | .layout manifest write => runLayout file manifest write

/-- Run the program on files. -/
def run (host : Host) (files : FileTree) (args : List String) : Outcome :=
  match host.parsed args with
  | .answered exitCode stdout stderr => ⟨.exit exitCode, { files, stdout, stderr }⟩
  | .version => (Script.print s!"umlbox version {version}\n\n").outcome host { files }
  | .broken cause => ⟨.crash cause, { files }⟩
  | .command program verb options file =>
    let verbose := program.has "--verbose"
    (runTask file (verb.task options)).outcome host { files, verbose }

end ComponentDiagram.Command
