import ComponentDiagram.Command.FileTree
import ComponentDiagram.Command.Host
import ComponentDiagram.Log

/-! What a command leaves behind: texts, styled output, files, and how it ended. -/
namespace ComponentDiagram.Command

/-- What a running command has done so far. -/
structure World where
  files : FileTree
  verbose : Bool := false
  stdout : String := ""
  stderr : String := ""
  console : List Display := []
deriving Inhabited

def World.receive (w : World) (text : String) : Stream → World
  | .output => { w with stdout := w.stdout ++ text }
  | .errors => { w with stderr := w.stderr ++ text }

/-- How a command ends, if it does. -/
inductive Stop
  | exit (code : Nat)
  | crash (cause : Crash)
  | never
deriving Repr, DecidableEq, Inhabited

/-- What a command does on a host; what was done before it stops early stays done. -/
abbrev Script (β : Type) := ReaderT Host (EStateM Stop World) β

namespace Script

def crash {β : Type} (cause : Crash) : Script β := throw (.crash cause)

/-- Hand a text to a stream. -/
def say (stream : Stream) (text : String) : Script Unit := do
  match (← read).echo stream text with
  | some received => modify fun w => w.receive received stream
  | none => crash .unprintable

def print (text : String) : Script Unit := say .output text

def printLine (text : String) : Script Unit := print (text ++ "\n")

def complain (line : String) : Script Unit := say .errors (line ++ "\n")

def display (piece : Display) : Script Unit := do
  match (← read).display piece with
  | some shown => modify fun w => { w with console := w.console ++ [shown] }
  | none => crash .unprintable

def displayStyled (content : String) (style : Style) : Script Unit :=
  display (.styled content style)

/-- Pass on the notes that are to be seen. They go to the stream for errors as they are, past what
the host does to texts. -/
def log (notes : List Note) : Script Unit := do
  let w ← get
  notes.forM fun note =>
    if note.shown w.verbose then modify fun w => w.receive (note.display ++ "\n") .errors
    else pure ()

/-- End with a message. -/
def fail {β : Type} (message : String) : Script β := do
  complain message
  throw (.exit 1)

end Script

/-- How a command ended, and what it left. -/
structure Outcome where
  ending : Stop
  world : World
deriving Inhabited

def Script.outcome (script : Script Unit) (host : Host) (world : World) : Outcome :=
  match (script.run host).run world with
  | .ok _ w => ⟨.exit 0, w⟩
  | .error stop w => ⟨stop, w⟩

end ComponentDiagram.Command
