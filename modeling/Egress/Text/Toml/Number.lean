import Egress.Text.Decimal
import Egress.Word

/-!
# Numbers in parameter files

Whole numbers of 64 bits, also in base 16, 8 or 2, and finite doubles. Digits may be grouped by
underscores, and decimal numbers have no leading zeros.
-/
namespace Egress.Text.Toml

/-- True if the list is not empty and every underscore stands between two other characters. -/
def isGrouped : List Char → Bool
  | [] => false
  | [c] => c ≠ '_'
  | c :: d :: cs => c ≠ '_' && if d = '_' then isGrouped cs else isGrouped (d :: cs)

/-- Value of a digit in any base up to 16. -/
def digitValue (c : Char) : Nat :=
  if c.isDigit then c.toNat - '0'.toNat
  else if 'a' ≤ c ∧ c ≤ 'f' then c.toNat - 'a'.toNat + 10
  else if 'A' ≤ c ∧ c ≤ 'F' then c.toNat - 'A'.toNat + 10
  else 16

/-- Digits without their underscores. -/
structure Digits where
  negative : Bool
  digits : List Char

/-- Reads digits of a base from the front of a word. The rest starts with none. -/
def spanDigits? (base : Nat) (leadingZeros : Bool) (w : List Char) :
    Option (List Char × List Char) :=
  let run := w.takeWhile fun c => decide (digitValue c < base) || c = '_'
  let needless := run.length > 1 && run.head? = some '0'
  if isGrouped run && (leadingZeros || !needless) then
    some (run.filter (· ≠ '_'), w.drop run.length)
  else none

/-- Reads decimal digits that may have a minus sign. -/
def spanSigned? (leadingZeros : Bool) (w : List Char) : Option (Digits × List Char) :=
  let (negative, body) := match w with
    | '-' :: cs => (true, cs)
    | cs => (false, cs)
  (spanDigits? 10 leadingZeros body).map fun (digits, rest) => (⟨negative, digits⟩, rest)

/-- A whole number as digits of a base, if it fits into 64 bits with a sign. -/
def Digits.value? (base : Nat) (d : Digits) : Option Int :=
  let n : Nat := d.digits.foldl (fun n c => base * n + digitValue c) 0
  let v : Int := if d.negative then -n else n
  if fitsWord v then some v else none

/-- The whole number that a word spells. -/
def integer? (w : List Char) : Option Int :=
  let based (base : Nat) (cs : List Char) : Option Int :=
    match spanDigits? base true cs with
    | some (digits, []) => (⟨false, digits⟩ : Digits).value? base
    | _ => none
  match w with
  | '0' :: 'x' :: cs => based 16 cs
  | '0' :: 'o' :: cs => based 8 cs
  | '0' :: 'b' :: cs => based 2 cs
  | cs =>
    match spanSigned? false cs with
    | some (d, []) => d.value? 10
    | _ => none

/-- The double spelled by digits before and after the point and an exponent, if it is finite. -/
def decimal? (whole : Digits) (fraction : List Char) (exponent : Digits) : Option Float :=
  let power : Int := Decimal.digitsValue exponent.digits
  let x := Decimal.toFloat whole.negative (Decimal.digitsValue (whole.digits ++ fraction))
    ((if exponent.negative then -power else power) - fraction.length)
  if x.isFinite then some x else none

end Egress.Text.Toml
