import Egress.Text.Decimal

/-!
# JSON

Values as they are written in reports, on one line or with a line for each element and member.
-/
namespace Egress.Text

inductive Json where
  | null
  | boolean (b : Bool)
  | integer (n : Int)
  | decimal (x : Float)
  | text (s : String)
  | list (elements : List Json)
  | object (members : List (String × Json))

namespace Json

/-- How one character is written in a text. -/
def escape (c : Char) : List Char :=
  match c with
  | '"' => ['\\', '"']
  | '\\' => ['\\', '\\']
  | '\x08' => ['\\', 'b']
  | '\x0c' => ['\\', 'f']
  | '\n' => ['\\', 'n']
  | '\r' => ['\\', 'r']
  | '\t' => ['\\', 't']
  | c =>
    if c < ' ' then
      let digits := Nat.toDigits 16 c.toNat
      ['\\', 'u'] ++ List.replicate (4 - digits.length) '0' ++ digits
    else [c]

/-- Appends a text in quotes. -/
def writeText (out : String) (s : String) : String :=
  (s.foldl (fun out c => (escape c).foldl String.push out) (out.push '"')).push '"'

/-- Appends a number. What is not finite has no notation and is written as `null`. -/
def writeDecimal (out : String) (x : Float) : String :=
  out ++ if x.isFinite then Decimal.pointed x else "null"

/-- Where a value begins, as a number of levels, `none` if everything is on one line. -/
abbrev Indent := Option Nat

def Indent.deeper (i : Indent) : Indent := i.map (· + 1)

/-- Begins a line, if there are lines. -/
def writeBreak (out : String) : Indent → String
  | none => out
  | some n => out ++ "\n" ++ String.ofList (List.replicate (2 * n) ' ')

mutual

/-- Appends a value. -/
def write (i : Indent) (out : String) : Json → String
  | .null => out ++ "null"
  | .boolean b => out ++ if b then "true" else "false"
  | .integer n => out ++ toString n
  | .decimal x => writeDecimal out x
  | .text s => writeText out s
  | .list [] => out ++ "[]"
  | .list (v :: vs) =>
    let out := write i.deeper (writeBreak (out ++ "[") i.deeper) v
    writeBreak (writeElements i.deeper out vs) i ++ "]"
  | .object [] => out ++ "\x7b\x7d"
  | .object ((k, v) :: ms) =>
    let out := writeName i.deeper (writeBreak (out ++ "\x7b") i.deeper) k
    writeBreak (writeMembers i.deeper (write i.deeper out v) ms) i ++ "\x7d"

/-- Appends the elements of a list after the first. -/
def writeElements (i : Indent) (out : String) : List Json → String
  | [] => out
  | v :: vs => writeElements i (write i (writeBreak (out ++ ",") i) v) vs

/-- Appends the members of an object after the first. -/
def writeMembers (i : Indent) (out : String) : List (String × Json) → String
  | [] => out
  | (k, v) :: ms => writeMembers i (write i (writeName i (writeBreak (out ++ ",") i) k) v) ms

/-- Appends the name of a member. -/
def writeName (i : Indent) (out : String) (name : String) : String :=
  writeText out name ++ if i.isSome then ": " else ":"

end

/-- The value on one line. -/
def compact (v : Json) : String := write none "" v

/-- The value with two spaces of indentation for each level. -/
def indented (v : Json) : String := write (some 0) "" v

end Json

end Egress.Text
