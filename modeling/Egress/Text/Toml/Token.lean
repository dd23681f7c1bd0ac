/-!
# Tokens of parameter files

Parameter files are TOML. A file is cut into line breaks, runs of blanks, comments, punctuation,
words of letters, digits, hyphens and underscores, and texts in quotes. Texts in apostrophes are
taken as they stand, those in double quotes may hold escapes, and either kind may be tripled to run
over several lines.
-/
namespace Egress.Text.Toml

inductive Token where
  | newline
  /-- Spaces and tabs, `single` being true of one space by itself. -/
  | blank (single : Bool)
  | comment
  | equals
  | point
  | comma
  | colon
  | plus
  | openBrace
  | closeBrace
  | openBracket
  | closeBracket
  | word (letters : List Char)
  | text (value : String) (multiline : Bool)
  deriving DecidableEq, Repr

namespace Token

def isBlank : Token → Bool
  | .blank _ => true
  | _ => false

def isSpace (c : Char) : Bool := c = ' ' || c = '\t'

def isWordChar (c : Char) : Bool := c.isAlphanum || c = '-' || c = '_'

/-- Characters that comments may hold. -/
def isCommentChar (c : Char) : Bool := c = '\t' || decide (' ' ≤ c)

/-- Characters that stand for themselves in quotes. -/
def isTextChar (c : Char) : Bool := isCommentChar c && c ≠ '\x7f'

def apostrophe : Char := '\x27'

def quote : Char := '\x22'

/-- Value of a hexadecimal digit. -/
def hexDigit? (c : Char) : Option Nat :=
  if c.isDigit then some (c.toNat - '0'.toNat)
  else if 'a' ≤ c ∧ c ≤ 'f' then some (c.toNat - 'a'.toNat + 10)
  else if 'A' ≤ c ∧ c ≤ 'F' then some (c.toNat - 'A'.toNat + 10)
  else none

/-- Value of the first `n` characters as hexadecimal digits, and the rest. -/
def spanHex? : Nat → Nat → List Char → Option (Nat × List Char)
  | 0, value, cs => some (value, cs)
  | _ + 1, _, [] => none
  | n + 1, value, c :: cs => (hexDigit? c).bind fun d => spanHex? n (16 * value + d) cs

/-- The character whose number is written in `n` hexadecimal digits. -/
def numbered? (n : Nat) (cs : List Char) : Option (List Char × List Char) :=
  (spanHex? n 0 cs).bind fun (value, rest) =>
    if value.isValidChar then some ([Char.ofNat value], rest) else none

/-- Skips the line break after a backslash and all blank lines and indentation that follow it. -/
def skipBreak? (cs : List Char) : Option (List Char) :=
  match cs.dropWhile isSpace with
  | '\n' :: rest => some (rest.dropWhile fun c => isSpace c || c = '\n')
  | _ => none

/-- What an escape stands for, given the text after its backslash, and the rest. -/
def escaped? (multiline : Bool) : List Char → Option (List Char × List Char)
  | [] => none
  | c :: cs =>
    match c with
    | '"' => some (['"'], cs)
    | '\\' => some (['\\'], cs)
    | 'b' => some (['\x08'], cs)
    | 'f' => some (['\x0c'], cs)
    | 'n' => some (['\n'], cs)
    | 'r' => some (['\r'], cs)
    | 't' => some (['\t'], cs)
    | 'u' => numbered? 4 cs
    | 'U' => numbered? 8 cs
    | c => if multiline then (skipBreak? (c :: cs)).map fun rest => ([], rest) else none

/-- Reads quoted text up to its closing quotes `q`, in front of which a tripled text may have up to
two more. `before` is what has been read, the latest first. Each step shortens the text, so as much
fuel as characters is enough. -/
def spanQuoted? (q : Char) (multiline : Bool) :
    Nat → List Char → List Char → Option (List Char × List Char)
  | 0, _, _ => none
  | _ + 1, _, [] => none
  | fuel + 1, before, c :: cs =>
    if c = q then
      if multiline then
        let quotes := (c :: cs).takeWhile (· = q)
        if quotes.length < 3 then
          spanQuoted? q multiline fuel (quotes ++ before) ((c :: cs).drop quotes.length)
        else
          let closing := min quotes.length 5
          some ((List.replicate (closing - 3) q ++ before).reverse, (c :: cs).drop closing)
      else some (before.reverse, cs)
    else if c = '\n' then
      if multiline then spanQuoted? q multiline fuel (c :: before) cs else none
    else if c = '\\' ∧ q = quote then
      (escaped? multiline cs).bind fun (meant, rest) =>
        spanQuoted? q multiline fuel (meant.reverse ++ before) rest
    else if isTextChar c then spanQuoted? q multiline fuel (c :: before) cs
    else none

/-- The text after an opening quote. A line break right after tripled quotes is dropped. -/
def ofQuoted? (q : Char) (cs : List Char) : Option (Token × List Char) :=
  let multiline := cs.take 2 = [q, q]
  let body :=
    if multiline then
      match cs.drop 2 with
      | '\n' :: rest => rest
      | rest => rest
    else cs
  (spanQuoted? q multiline (body.length + 1) [] body).map fun (value, rest) =>
    (.text (.ofList value) multiline, rest)

/-- The token that starts with the character `c`, and the rest. -/
def first? (c : Char) (cs : List Char) : Option (Token × List Char) :=
  match c with
  | '\n' => some (.newline, cs)
  | '#' => some (.comment, cs.dropWhile isCommentChar)
  | '=' => some (.equals, cs)
  | '.' => some (.point, cs)
  | ',' => some (.comma, cs)
  | ':' => some (.colon, cs)
  | '+' => some (.plus, cs)
  | '\x7b' => some (.openBrace, cs)
  | '\x7d' => some (.closeBrace, cs)
  | '[' => some (.openBracket, cs)
  | ']' => some (.closeBracket, cs)
  | c =>
    if c = quote ∨ c = apostrophe then ofQuoted? c cs
    else if isSpace c then
      let rest := cs.dropWhile isSpace
      some (.blank (c = ' ' ∧ rest.length = cs.length), rest)
    else if isWordChar c then
      some (.word (c :: cs.takeWhile isWordChar), cs.dropWhile isWordChar)
    else none

/-- The tokens of a text, `none` if it cannot be cut into tokens. Each token takes a character at
least, so as much fuel as characters is enough. -/
def scan? : Nat → List Char → Option (List Token)
  | _, [] => some []
  | 0, _ :: _ => none
  | fuel + 1, c :: cs =>
    (first? c cs).bind fun (t, rest) => (scan? fuel rest).map (t :: ·)

/-- Line feeds in place of pairs of carriage return and line feed. -/
def joinBreaks : List Char → List Char
  | [] => []
  | '\r' :: '\n' :: cs => '\n' :: joinBreaks cs
  | c :: cs => c :: joinBreaks cs

/-- The tokens of a file, a byte order mark in front being skipped. -/
def ofFile? (file : String) : Option (List Token) :=
  let body := match file.toList with
    | '\ufeff' :: cs => cs
    | cs => cs
  scan? body.length (joinBreaks body)

end Token

end Egress.Text.Toml
