/-! Interface symbols: a dash, one or more parentheses, a dash. A `()` pair is a ball, a lone
parenthesis a socket. -/
namespace ComponentDiagram

namespace InterfaceSymbol

def isParenthesis (c : Char) : Bool := c == '(' || c == ')'

/-- The interface symbol that starts the text. The parentheses can only end at a dash, so there is
never more than one way to read one. -/
def match? : List Char → Option (List Char)
  | '-' :: rest =>
    let inner := rest.takeWhile isParenthesis
    if inner.isEmpty then none
    else match rest.dropWhile isParenthesis with
      | '-' :: _ => some ('-' :: inner ++ ['-'])
      | _ => none
  | _ => none

/-- An interface symbol starts somewhere in the text. -/
def occursIn : List Char → Bool
  | [] => false
  | c :: rest => (match? (c :: rest)).isSome || occursIn rest

/-- The text is an interface symbol; one line feed may end it. -/
def accepts (text : List Char) : Bool :=
  match match? text with
  | some mark => text == mark || text == mark ++ ['\n']
  | none => false

end InterfaceSymbol

/-- The text of an interface symbol. -/
structure InterfaceSymbol where
  text : String
  accepted : InterfaceSymbol.accepts text.toList = true
deriving DecidableEq

namespace InterfaceSymbol

def ofString? (text : String) : Option InterfaceSymbol :=
  if h : accepts text.toList = true then some ⟨text, h⟩ else none

/-- The symbol of a source that provides the interface. -/
def provider : InterfaceSymbol := ⟨"-())-", by decide⟩

/-- The symbol of a source that requires the interface. -/
def requirer : InterfaceSymbol := ⟨"-(()-", by decide⟩

/-- The source's end of the symbol is a ball. -/
def sourceProvides (mark : InterfaceSymbol) : Bool :=
  ['(', ')'].isPrefixOf (mark.text.toList.drop 1)

/-- The canonical symbol with the roles of both ends exchanged. -/
def inverted (mark : InterfaceSymbol) : InterfaceSymbol :=
  if mark.sourceProvides then requirer else provider

theorem sourceProvides_inverted (mark : InterfaceSymbol) :
    mark.inverted.sourceProvides = !mark.sourceProvides := by
  unfold inverted
  split
  · rename_i h
    rw [h]
    decide
  · rename_i h
    rw [Bool.not_eq_true] at h
    rw [h]
    decide

end InterfaceSymbol

end ComponentDiagram
