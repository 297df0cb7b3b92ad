/-! Notes that an operation leaves for whoever runs it. -/
namespace ComponentDiagram

inductive Severity
  | debug
  | info
  | warning
deriving Repr, DecidableEq, Inhabited

def Severity.name : Severity → String
  | debug => "DEBUG"
  | info => "INFO"
  | warning => "WARNING"

/-- The part of the program that speaks. -/
inductive Channel
  | reading
  | building
  | placement
  | layout
  | writing
  | settings
deriving Repr, DecidableEq, Inhabited

def Channel.name : Channel → String
  | reading => "umlbox.core.dsl_parser_impl.base"
  | building => "umlbox.core.builder"
  | placement => "umlbox.layout.placement"
  | layout => "umlbox.layout.engine"
  | writing => "umlbox.core.serializer"
  | settings => "umlbox.core.manifest"

structure Note where
  severity : Severity
  channel : Channel
  message : String
deriving Repr, DecidableEq, Inhabited

namespace Note

def debug (channel : Channel) (message : String) : Note := ⟨.debug, channel, message⟩

def display (note : Note) : String :=
  s!"{note.severity.name} {note.channel.name}: {note.message}"

/-- Warnings are always shown, anything below only on request. -/
def shown (verbose : Bool) (note : Note) : Bool :=
  verbose || note.severity == .warning

end Note

end ComponentDiagram
