import Egress.Text.Toml.Number
import Egress.Text.Toml.Token

/-!
# Values in parameter files

Values are texts, numbers, booleans, dates, lists and tables in braces. They are read from tokens
by steps that take tokens from the front and may fail. Keys may have several parts joined by
points, and then make up tables within tables.

Dates are told apart from numbers, but what day and time they name is not looked at.
-/
namespace Egress.Text.Toml

/-- How a table is written. -/
inductive TableForm where
  /-- In braces. -/
  | inline
  /-- By keys with several parts. -/
  | dotted
  /-- By headers. If the file is one header and nothing else, `word` is its last part. -/
  | headed (word : Option String)
  deriving DecidableEq, Repr

inductive Value where
  | text (s : String)
  | integer (n : Int)
  | decimal (x : Float)
  | boolean (b : Bool)
  | date
  | list (elements : List Value)
  /-- A table with its entries in the order in which they are written. A key may be repeated. -/
  | table (form : TableForm) (entries : List (String × Value))

/-- The entries of a table. -/
abbrev Entries := List (String × Value)

/-- Steps that read tokens from the front. -/
abbrev Reading := StateT (List Token) Option

namespace Reading

def next : Reading Token := fun ts =>
  match ts with
  | [] => none
  | t :: rest => some (t, rest)

/-- Takes the token `t` off if it comes next. The answer is whether it did. -/
def eat (t : Token) : Reading Bool := fun ts =>
  match ts with
  | t' :: rest => if t = t' then some (true, rest) else some (false, ts)
  | [] => some (false, ts)

/-- Takes the token `t` off, which has to come next. -/
def expect (t : Token) : Reading Unit := do
  if ← eat t then return else failure

def skipBlanks : Reading Unit := modify (·.dropWhile Token.isBlank)

def word : Reading (List Char) := do
  match ← next with
  | .word w => return w
  | _ => failure

/-- The end of a line, or of the file. -/
def lineEnd : Reading Unit := do
  let _ ← eat .comment
  if (← get).isEmpty then return else expect .newline

/-- Skips blanks, comments and line breaks. -/
def skipLines : Reading Unit :=
  modify (·.dropWhile fun t => t.isBlank || t = .newline || t = .comment)

def keyPart : Reading String := do
  match ← next with
  | .word w => return .ofList w
  | .text value false => return value
  | _ => failure

/-- The parts of a key after its first, each behind a point. Each takes two tokens at least, so as
much fuel as tokens is enough. -/
def moreParts : Nat → Reading (List String)
  | 0 => return []
  | fuel + 1 => do
    skipBlanks
    if ← eat .point then
      skipBlanks
      let part ← keyPart
      return part :: (← moreParts fuel)
    else return []

/-- The parts of a key. Blanks after it are skipped. -/
def key : Reading (List String) := do
  let first ← keyPart
  return first :: (← moreParts (← get).length)

/-- The exponent of a number, given what follows its digits in the same word. -/
def exponent (tail : List Char) : Reading Digits := do
  let whole (read : Option (Digits × List Char)) : Reading Digits :=
    match read with
    | some (d, []) => return d
    | _ => failure
  match tail with
  | [] => return ⟨false, ['0']⟩
  | [c] =>
    if c = 'e' ∨ c = 'E' then
      let _ ← eat .plus
      let w ← word
      whole ((spanDigits? 10 true w).map fun (digits, rest) => (⟨false, digits⟩, rest))
    else failure
  | c :: cs => if c = 'e' ∨ c = 'E' then whole (spanSigned? true cs) else failure

/-- The double that begins with the word `w`, a point having been read after it if there is a
`fraction`. -/
def decimal (w : List Char) (fraction : Option (List Char)) : Reading Value := do
  match spanSigned? false w, fraction with
  | some (d, []), some f =>
    match spanDigits? 10 true f with
    | some (digits, tail) => .decimal <$> (decimal? d digits (← exponent tail))
    | none => failure
  | some (d, tail), none => .decimal <$> (decimal? d [] (← exponent tail))
  | _, _ => failure

/-- The number that begins with the word `w`. -/
def number (w : List Char) : Reading Value := do
  let isBased := w.take 2 ∈ [['0', 'x'], ['0', 'o'], ['0', 'b']]
  if isBased then .integer <$> integer? w
  else if w.any fun c => c = 'e' || c = 'E' then decimal w none
  else if ← eat .point then decimal w (some (← word))
  else
    match String.ofList w with
    | "inf" => return .decimal (1 / 0)
    | "-inf" => return .decimal (-1 / 0)
    | "nan" | "-nan" => return .decimal (0 / 0)
    | _ => .integer <$> integer? w

/-- True if a word begins a date and no number: it has a `t`, or a hyphen that is no sign. -/
def isDate (w : List Char) : Bool :=
  let hasExponent := (w.zip w.tail).any fun (c, d) => (c = 'e' || c = 'E') && d = '-'
  w.any (fun c => c = 'T' || c = 't') || (w.tail.contains '-' && !hasExponent)

/-- The rest of a date after its first word, of which `hourRead` tells whether it goes up to the
hour and the colon after it. -/
def date (hourRead : Bool) : Reading Value := do
  match ← get with
  | .blank true :: .word _ :: rest => set rest
  | _ => pure ()
  let timed ← if hourRead then pure true else eat .colon
  if timed then
    let _ ← word
    expect .colon
    let _ ← word
    if ← eat .point then let _ ← word
    if ← eat .plus then let _ ← word
    if ← eat .colon then let _ ← word
  return .date

/-- The value that begins with the word `w`. -/
def wordValue (w : List Char) : Reading Value := do
  match String.ofList w, w with
  | "true", _ => return .boolean true
  | "false", _ => return .boolean false
  | text, c :: _ =>
    if text = "inf" ∨ text = "nan" ∨ c = '-' ∨ c.isDigit then
      if isDate w then date false
      else if ← eat .colon then date true
      else number w
    else failure
  | _, [] => failure

end Reading

/-- Adds a value under a key with the given parts. Parts before the last lead through tables that
were made in the same way, which are added where there are none. -/
def Entries.add (entries : Entries) : List String → Value → Option Entries
  | [], _ => none
  | [k], v => some (entries ++ [(k, v)])
  | k :: ks, v =>
    match entries.findIdx? (·.1 = k) with
    | none => (Entries.add [] ks v).map fun inner => entries ++ [(k, .table .dotted inner)]
    | some i =>
      match entries[i]? with
      | some (_, .table .dotted inner) =>
        (Entries.add inner ks v).map fun inner => entries.set i (k, .table .dotted inner)
      | _ => none

namespace Reading

mutual

/-- Reads a value. Each step takes a token or is followed by one that does, so twice as much fuel as
tokens is enough, here and below. -/
def value : Nat → Reading Value
  | 0 => failure
  | fuel + 1 => do
    match ← next with
    | .text s _ => return .text s
    | .word w => wordValue w
    | .plus => number (← word)
    | .openBrace => do
      skipBlanks
      if ← eat .closeBrace then return .table .inline []
      return .table .inline (← members fuel [])
    | .openBracket => return .list (← elements fuel)
    | _ => failure

/-- The rest of a list. -/
def elements : Nat → Reading (List Value)
  | 0 => failure
  | fuel + 1 => do
    skipLines
    if ← eat .closeBracket then return []
    let v ← value fuel
    skipLines
    if ← eat .comma then return v :: (← elements fuel)
    expect .closeBracket
    return [v]

/-- The rest of a table in braces after the given entries. -/
def members : Nat → Entries → Reading Entries
  | 0, _ => failure
  | fuel + 1, before => do
    let parts ← key
    expect .equals
    skipBlanks
    let v ← value fuel
    let entries ← Entries.add before parts v
    skipBlanks
    if ← eat .closeBrace then return entries
    expect .comma
    skipBlanks
    members fuel entries

end

end Reading

end Egress.Text.Toml
