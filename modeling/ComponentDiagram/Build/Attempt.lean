import ComponentDiagram.Build.Route
import ComponentDiagram.Grammar.Statement

/-! Reading a diagram for an editor, where an error of the author is part of the answer. -/
namespace ComponentDiagram

/-- What an editor gets: a diagram with the document and the tokens that it was built from, or an
empty diagram with the error. -/
structure Attempt (α : Type) where
  diagram : Diagram α := {}
  document : Option (Document α) := none
  tokens : Option (List Token) := none
  error : Option LocatedError := none

/-- Read a text and build its diagram, all or nothing. A failure that is no syntax error is no
answer. -/
def Attempt.ofText {α : Type} [Scalar α] (text : String) (file : Option Path) :
    Except Grammar.Failure (Attempt α) :=
  match Grammar.parse text file with
  | .ok doc =>
    .ok
      { diagram := Build.diagram doc
        document := some doc
        tokens := some (Source.tokens text false) }
  | .error (.syntaxError e) => .ok { error := some e }
  | .error e => .error e

end ComponentDiagram
