import ComponentDiagram.Toml.Scalar

/-! TOML documents: arrays, inline tables, and the statements that fill the tables. No key is ever
given two values. -/
namespace ComponentDiagram.Toml

/-- Change the table that a path leads to, making the tables that are missing on the way. Through
an array of tables the path goes to its last one, where that is allowed. -/
def updateAt (throughArrays : Bool) (change : Table → Option Table) :
    List String → Table → Option Table
  | [], table => change table
  | part :: path, table =>
    let set (v : Value) : Table := table.map fun (k, old) => (k, if k = part then v else old)
    match table.lookup part with
    | none =>
      (updateAt throughArrays change path []).map fun inner => table ++ [(part, .table inner)]
    | some (.table inner) =>
      (updateAt throughArrays change path inner).map fun inner => set (.table inner)
    | some (.array items) =>
      match throughArrays, items.getLast? with
      | true, some (.table inner) =>
        (updateAt throughArrays change path inner).map fun inner =>
          set (.array (items.dropLast ++ [.table inner]))
      | _, _ => none
    | some _ => none

/-- Give a key of a table its first value. -/
def insertNew (key : String) (value : Value) (table : Table) : Option Table :=
  if (table.lookup key).isSome then none else some (table ++ [(key, value)])

/-- Add an empty table to the array of tables at a key, or start the array. -/
def appendTable (key : String) (table : Table) : Option Table :=
  match table.lookup key with
  | none => some (table ++ [(key, .array [.table []])])
  | some (.array items) =>
    some (table.map fun (k, old) => (k, if k = key then .array (items ++ [.table []]) else old))
  | some _ => none

/-- Arrays and inline tables are complete where they are written. -/
def Value.isClosed : Value → Bool
  | .array _ | .table _ => true
  | _ => false

/-- Some key of a list is the start of a key or all of it. -/
def coveredBy (keys : List (List String)) (key : List String) : Bool :=
  keys.any (·.isPrefixOf key)

/-- An entry of an inline table, unless it reaches into a value that is complete. -/
def inlineEntry (closed : List (List String)) (table : Table) (key : List String) (value : Value) :
    Except Fault Table :=
  let changed :=
    if coveredBy closed key then none
    else updateAt false (insertNew (key.getLast?.getD "") value) key.dropLast table
  match changed with
  | some table => .ok table
  | none => .error .invalid

mutual

def value : Nat → List Char → Except Fault (Value × List Char)
  | 0, _ => .error .invalid
  | fuel + 1, cs =>
    match string? cs with
    | some r => r.map fun (text, rest) => (.string text, rest)
    | none =>
      if ['t', 'r', 'u', 'e'].isPrefixOf cs then .ok (.boolean true, cs.drop 4)
      else if ['f', 'a', 'l', 's', 'e'].isPrefixOf cs then .ok (.boolean false, cs.drop 5)
      else match cs with
        | '[' :: rest => do
          let (items, rest) ← arrayItems fuel (← skipFiller rest)
          return (.array items, rest)
        | '\x7b' :: rest =>
          match skipBlanks rest with
          | '\x7d' :: rest => .ok (.table [], rest)
          | rest => (inlineEntries fuel [] [] rest).map fun (table, rest) => (.table table, rest)
        | _ => plainValue cs

/-- Items of an array up to its closing bracket; a comma may follow the last one. -/
def arrayItems : Nat → List Char → Except Fault (List Value × List Char)
  | 0, _ => .error .invalid
  | fuel + 1, cs =>
    match cs with
    | ']' :: rest => .ok ([], rest)
    | _ => do
      let (item, rest) ← value fuel cs
      match ← skipFiller rest with
      | ']' :: rest => return ([item], rest)
      | ',' :: rest =>
        let (items, rest) ← arrayItems fuel (← skipFiller rest)
        return (item :: items, rest)
      | _ => .error .invalid

/-- Entries of an inline table up to its closing brace, all on one line. -/
def inlineEntries : Nat → List (List String) → Table → List Char → Except Fault (Table × List Char)
  | 0, _, _, _ => .error .invalid
  | fuel + 1, closed, table, cs => do
    let (key, rest) ← key cs
    match rest with
    | '=' :: rest =>
      let (entry, rest) ← value fuel (skipBlanks rest)
      let table ← inlineEntry closed table key entry
      match skipBlanks rest with
      | '\x7d' :: rest => return (table, rest)
      | ',' :: rest =>
        let closed := if entry.isClosed then key :: closed else closed
        inlineEntries fuel closed table (skipBlanks rest)
      | _ => .error .invalid
    | _ => .error .invalid

end

/-- One statement of a document. -/
inductive Statement
  | entry (key : List String) (value : Value)
  /-- `[key]` -/
  | table (key : List String)
  /-- `[[key]]` -/
  | element (key : List String)
deriving Inhabited

/-- The statement at the front of a text. -/
def statement (fuel : Nat) (cs : List Char) : Except Fault (Statement × List Char) :=
  match cs with
  | '[' :: '[' :: rest => do
    let (key, rest) ← key (skipBlanks rest)
    match rest with
    | ']' :: ']' :: rest => return (.element key, rest)
    | _ => .error .invalid
  | '[' :: rest => do
    let (key, rest) ← key (skipBlanks rest)
    match rest with
    | ']' :: rest => return (.table key, rest)
    | _ => .error .invalid
  | _ => do
    let (key, rest) ← key cs
    match rest with
    | '=' :: rest =>
      let (value, rest) ← value fuel (skipBlanks rest)
      return (.entry key value, rest)
    | _ => .error .invalid

/-- A document under construction. -/
structure Builder where
  root : Table := []
  /-- The table that entries go to. -/
  header : List String := []
  /-- Tables that no header may name again. -/
  declared : List (List String) := []
  /-- Tables that become declared with the next header. -/
  pending : List (List String) := []
  /-- Values that nothing may reach into. -/
  closed : List (List String) := []
deriving Inhabited

namespace Builder

/-- The keys of the tables that a dotted key makes on its way. -/
def passed (header key : List String) : List (List String) :=
  ((List.range key.length).drop 1).map fun n => header ++ key.take n

def addEntry (b : Builder) (key : List String) (value : Value) : Option Builder :=
  let way := passed b.header key
  let parent := b.header ++ key.dropLast
  if way.any (b.declared.contains ·) || coveredBy b.closed parent then none
  else
    (updateAt true (insertNew (key.getLast?.getD "") value) parent b.root).map fun root =>
      { b with
        root
        pending := b.pending ++ way
        closed := if value.isClosed then (b.header ++ key) :: b.closed else b.closed }

/-- Start a new section; what dotted keys made before it is declared from here on. -/
def settle (b : Builder) : Builder :=
  { b with declared := b.pending ++ b.declared, pending := [] }

def openTable (b : Builder) (key : List String) : Option Builder :=
  if b.declared.contains key || coveredBy b.closed key then none
  else
    (updateAt true some key b.root).map fun root =>
      { b with root, header := key, declared := key :: b.declared }

/-- A new element of an array of tables; what its predecessor held can be declared again. -/
def openElement (b : Builder) (key : List String) : Option Builder :=
  if coveredBy b.closed key then none
  else
    let free (keys : List (List String)) := keys.filter fun k => !key.isPrefixOf k
    (updateAt true (appendTable (key.getLast?.getD "")) key.dropLast b.root).map fun root =>
      { b with root, header := key, declared := key :: free b.declared, closed := free b.closed }

def add (b : Builder) : Statement → Option Builder
  | .entry key value => b.addEntry key value
  | .table key => b.settle.openTable key
  | .element key => b.settle.openElement key

end Builder

/-- Read the statements of a document, each on a line of its own. -/
def statementsTo (depth : Nat) : Nat → Builder → List Char → Except Fault Table
  | 0, _, _ => .error .invalid
  | fuel + 1, b, cs =>
    match skipBlanks cs with
    | [] => .ok b.root
    | '\n' :: rest => statementsTo depth fuel b rest
    | cs => do
      let (b, rest) ← match cs with
        | '#' :: _ => pure (b, cs)
        | _ =>
          let (s, rest) ← statement depth cs
          match b.add s with
          | some b => pure (b, rest)
          | none => .error .invalid
      match ← skipComment (skipBlanks rest) with
      | [] => return b.root
      | '\n' :: rest => statementsTo depth fuel b rest
      | _ => .error .invalid

/-- The table that a document describes. -/
def parse (text : String) : Except Fault Table :=
  let cs := text.toList
  statementsTo (2 * cs.length + 2) (cs.length + 1) {} cs

end ComponentDiagram.Toml
