import Egress.Text.Toml.Value

/-!
# Parameter files as tables

A file is cut into sections, each of a header and the entries below it, and the sections are put
together into one table. Headers may come in any order, but none may be repeated unless all of that
name are in double brackets; each of those begins a further element of a list, which the sections
that follow it and extend its name belong to.
-/
namespace Egress.Text.Toml

/-- A header with the entries below it. -/
structure Section where
  /-- Parts of the header, none for the entries in front of the first header. -/
  path : List String
  /-- True of headers in double brackets. -/
  isElement : Bool
  entries : Entries

namespace Reading

/-- The rest of a header after its first bracket. -/
def header : Reading (List String × Bool) := do
  let isElement ← eat .openBracket
  skipBlanks
  let path ← key
  expect .closeBracket
  if isElement then expect .closeBracket
  skipBlanks
  lineEnd
  return (path, isElement)

/-- An entry with the rest of its line, added to the given ones. -/
def entry (before : Entries) : Reading Entries := do
  let parts ← key
  expect .equals
  skipBlanks
  let v ← value (2 * (← get).length + 2)
  skipBlanks
  lineEnd
  Entries.add before parts v

/-- The sections of a file, given those read before with the current one. Each step takes a token
at least, so more fuel than tokens is enough. -/
def sections : Nat → List Section → Section → Reading (List Section)
  | 0, _, _ => failure
  | fuel + 1, done, current => do
    skipLines
    let finished := if current.path = [] ∧ current.entries.isEmpty then done else done ++ [current]
    match (← get).head? with
    | none => return finished
    | some .openBracket =>
      let _ ← next
      let (path, isElement) ← header
      sections fuel finished ⟨path, isElement, []⟩
    | some _ => sections fuel done { current with entries := ← entry current.entries }

end Reading

/-- Steps that use up sections, of which they keep those that have been used. -/
abbrev Assembly := StateT (Array Bool) Option

/-- Where a table is put together. -/
structure Spot where
  /-- Number of header parts that name the table. -/
  depth : Nat
  /-- A section whose header names the table or extends its name. -/
  parent : Nat
  /-- The first section that is looked at. -/
  cursor : Nat
  /-- The first section that is not looked at any more. -/
  limit : Nat

/-- The sections of a file. -/
structure Document where
  sections : Array Section

namespace Document

def path (d : Document) (i : Nat) : List String := ((d.sections[i]?).map (·.path)).getD []

def isElement (d : Document) (i : Nat) : Bool := ((d.sections[i]?).map (·.isElement)).getD false

/-- Uses up the entries of a section. -/
def take (d : Document) (i : Nat) : Assembly Entries := do
  modify (·.setIfInBounds i true)
  return ((d.sections[i]?).map (·.entries)).getD []

/-- The first section that belongs to the table at a spot and has not been used. -/
def next? (d : Document) (s : Spot) : Assembly (Option Nat) := do
  let used ← get
  let name := (d.path s.parent).take s.depth
  return (List.range' s.cursor (s.limit - s.cursor)).find? fun i =>
    !used.getD i true && name.isPrefixOf (d.path i)

/-- The next section with the same header in double brackets as section `i`, or `limit`. -/
def nextElement (d : Document) (i limit : Nat) : Nat :=
  ((List.range' (i + 1) (limit - (i + 1))).find? fun j =>
    d.isElement j && d.path j = d.path i).getD limit

/-- The spot after moving on to section `i`. A header that repeats the parent's is refused, and a
shorter one becomes the parent. -/
def advance (d : Document) (s : Spot) (i : Nat) : Assembly Spot := do
  if i = s.parent then return s
  if d.path i = d.path s.parent then failure
  return if (d.path i).length < (d.path s.parent).length then { s with parent := i } else s

/-- The last part of the header of a file that is one header and nothing else. -/
def loneWord (d : Document) : Option String :=
  match d.sections.toList with
  | [⟨path, _, []⟩] => path.getLast?
  | _ => none

mutual

/-- The table at a spot, after the given entries. Each step uses a section or passes one, or goes
one header part deeper. -/
def table (d : Document) : Nat → Spot → Entries → Assembly Entries
  | 0, _, _ => failure
  | fuel + 1, s, before => do
    if s.cursor = s.limit then return before
    match ← d.next? s with
    | none => return before
    | some i =>
      let s ← d.advance s i
      match (d.path i)[s.depth]? with
      | none =>
        if d.isElement i then failure
        let entries ← d.take i
        table d fuel { s with cursor := i } (before ++ entries)
      | some k =>
        let v ←
          if d.isElement i && s.depth + 1 = (d.path i).length then
            Value.list <$> elements d fuel s.depth i s.limit
          else
            Value.table (.headed d.loneWord) <$> table d fuel ⟨s.depth + 1, i, 0, s.limit⟩ []
        table d fuel { s with cursor := i + 1 } (before ++ [(k, v)])

/-- The elements of the list that section `i` begins, of tables whose name has one part more than
`depth`. -/
def elements (d : Document) : Nat → Nat → Nat → Nat → Assembly (List Value)
  | 0, _, _, _ => failure
  | fuel + 1, depth, i, limit => do
    if i = limit then return []
    let next := d.nextElement i limit
    let entries ← d.take i
    let first ← table d fuel ⟨depth + 1, i, 0, next⟩ entries
    return .table (.headed none) first :: (← elements d fuel depth next limit)

end

/-- The whole file as one table. On each of the levels that headers name, every section is passed
at most twice. -/
def toEntries? (d : Document) : Option Entries :=
  let n := d.sections.size
  let levels := d.sections.foldl (fun n s => n + s.path.length + 1) 0
  ((d.table (2 * (n + 1) * (levels + 1)) ⟨0, 0, 0, n⟩ []).run (.replicate n false)).map Prod.fst

end Document

/-- The table written in a file, `none` if the file is malformed. -/
def read? (file : String) : Option Value := do
  let tokens ← Token.ofFile? file
  let (sections, _) ← (Reading.sections (tokens.length + 1) [] ⟨[], false, []⟩).run tokens
  return .table .inline (← Document.toEntries? ⟨sections.toArray⟩)

end Egress.Text.Toml
