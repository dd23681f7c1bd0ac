/-!
# Decimal texts of doubles

A double is written with the fewest digits that read back as the same double, and a decimal is
read as the double nearest to it, ties going to the even one. Both directions are exact arithmetic
on natural numbers: a finite double is `mantissa * 2 ^ exponent`, and the numbers that are read
back as it form an interval around it, whose ends belong to it if the mantissa is even.
-/
namespace Egress.Text.Decimal

/-- Exponent of the last bit of the double nearest to `num / den`. -/
def lastBit (num den : Nat) : Int :=
  let guess : Int := (num.log2 : Int) - (den.log2 : Int)
  let isLess := num * Nat.pow 2 (-guess).toNat < den * Nat.pow 2 guess.toNat
  let top := if isLess then guess - 1 else guess
  max (top - 52) (-1074)

/-- `num / den` to the nearest whole number, ties to even. -/
def roundDiv (num den : Nat) : Nat :=
  let low := num / den
  let rest := 2 * (num % den)
  if rest < den ∨ (rest = den ∧ low % 2 = 0) then low else low + 1

/-- The double nearest to `num / den`, in its bit pattern without a sign. -/
def nearestBits (num den : Nat) : Nat :=
  if num = 0 then 0 else
    let q := lastBit num den
    let m := roundDiv (num * Nat.pow 2 (-q).toNat) (den * Nat.pow 2 q.toNat)
    min (if m < Nat.pow 2 52 then m else (q + 1074).toNat * Nat.pow 2 52 + m) (2047 * Nat.pow 2 52)

/-- The double nearest to `mantissa * 10 ^ exponent`. Decimals far outside the range of doubles
are not written out. -/
def toFloat (negative : Bool) (mantissa : Nat) (exponent : Int) : Float :=
  let digits : Int := (Nat.toDigits 10 mantissa).length
  let bits :=
    if mantissa = 0 ∨ exponent + digits < -400 then 0
    else if 400 < exponent + digits then 2047 * Nat.pow 2 52
    else nearestBits (mantissa * Nat.pow 10 exponent.toNat) (Nat.pow 10 (-exponent).toNat)
  Float.ofBits (.ofNat (if negative then bits + Nat.pow 2 63 else bits))

/-- A finite double, `mantissa * 2 ^ exponent` with a sign. -/
structure Parts where
  negative : Bool
  mantissa : Nat
  exponent : Int
  /-- True if the next double towards zero is only half as far away as the other neighbour. -/
  atPower : Bool

/-- The parts of a finite double. -/
def parts (x : Float) : Parts :=
  let bits := x.toBits.toNat
  let field : Nat := bits / Nat.pow 2 52 % 2048
  let fraction : Nat := bits % Nat.pow 2 52
  let negative : Bool := bits / Nat.pow 2 63 = 1
  if field = 0 then ⟨negative, fraction, -1074, false⟩
  else ⟨negative, Nat.pow 2 52 + fraction, (field : Int) - 1075, fraction = 0 ∧ 1 < field⟩

/-- Number of digits before the point of `num / den`, zero or less if it is below one. -/
def magnitude (num den : Nat) : Int :=
  let bits : Int := (num.log2 : Int) - (den.log2 : Int)
  let guess := bits * 30103 / 100000
  let reaches (e : Int) : Bool := decide (den * Nat.pow 10 e.toNat ≤ num * Nat.pow 10 (-e).toNat)
  if reaches (guess + 1) then guess + 2 else if reaches guess then guess + 1 else guess

/-- The value and the ends of its interval as numerators over a common denominator. -/
structure Interval where
  value : Nat
  low : Nat
  high : Nat
  den : Nat
  closed : Bool

def Parts.interval (p : Parts) : Interval :=
  let unit := Nat.pow 2 (p.exponent - 2).toNat
  { value := 4 * p.mantissa * unit
    low := (4 * p.mantissa - if p.atPower then 1 else 2) * unit
    high := (4 * p.mantissa + 2) * unit
    den := Nat.pow 2 (2 - p.exponent).toNat
    closed := p.mantissa % 2 = 0 }

/-- Which of two decimals is taken that are equally near to a value. -/
inductive Tie where
  | up
  | even

/-- True if `below + 1` is taken and not `below`, given the distances of both to the value. -/
def Tie.goesUp (tie : Tie) (below down up : Nat) : Bool :=
  match tie with
  | .up => decide (up ≤ down)
  | .even => decide (up < down ∨ (up = down ∧ below % 2 = 1))

/-- The multiple of `10 ^ k` nearest to the value, if one lies in the interval. -/
def Interval.onGrid (i : Interval) (tie : Tie) (k : Int) : Option Nat :=
  let up := Nat.pow 10 (-k).toNat
  let step := i.den * Nat.pow 10 k.toNat
  let inside (d : Nat) : Bool :=
    if i.closed then decide (i.low * up ≤ d * step ∧ d * step ≤ i.high * up)
    else decide (i.low * up < d * step ∧ d * step < i.high * up)
  let below := i.value * up / step
  match inside below, inside (below + 1) with
  | true, true =>
    let goesUp := tie.goesUp below (i.value * up - below * step) ((below + 1) * step - i.value * up)
    some (if goesUp then below + 1 else below)
  | true, false => some below
  | false, true => some (below + 1)
  | false, false => none

/-- The smallest and the largest multiple of `10 ^ k` in the interval, each by how many times
`10 ^ k` it is. Where there is none, the first is larger than the second. -/
def Interval.ends (i : Interval) (k : Int) : Nat × Nat :=
  let up := Nat.pow 10 (-k).toNat
  let step := i.den * Nat.pow 10 k.toNat
  if i.closed then ((i.low * up + step - 1) / step, i.high * up / step)
  else (i.low * up / step + 1, (i.high * up - 1) / step)

/-- True if a multiple of `unit` lies from the first number to the second. -/
def hasMultiple (unit : Nat) (ends : Nat × Nat) : Bool := decide (ends.1 ≤ ends.2 / unit * unit)

/-- Smallest `n` in `[low, low + width]` at which `hit` holds, given that it holds from some `n`
on and at `low + width`. -/
def leastHit (hit : Nat → Bool) : Nat → Nat → Nat → Nat
  | 0, low, _ => low
  | fuel + 1, low, width =>
    if width = 0 then low
    else if hit (low + width / 2) then leastHit hit fuel low (width / 2)
    else leastHit hit fuel (low + width / 2 + 1) (width - width / 2 - 1)

/-- Strips the trailing zeros of a number, counting them. -/
def stripZeros : Nat → Nat → Int → Nat × Int
  | 0, d, e => (d, e)
  | fuel + 1, d, e => if d % 10 = 0 ∧ d ≠ 0 then stripZeros fuel (d / 10) (e + 1) else (d, e)

/-- The fewest digits `d` and the exponent `e` such that `d * 10 ^ e` reads back as the double, and
of those the nearest to it. -/
def shortest (tie : Tie) (p : Parts) : Nat × Int :=
  if p.mantissa = 0 then (0, 0) else
    let i := p.interval
    let top := magnitude i.value i.den
    let ends := i.ends (top - 17)
    let n := leastHit (fun n => hasMultiple (Nat.pow 10 (17 - n)) ends) 5 1 16
    stripZeros 20 ((i.onGrid tie (top - n)).getD 0) (top - n)

/-- Digits with the point put `places` before the end. -/
def withPoint (digits : List Char) (places : Nat) : List Char :=
  let padded := List.replicate (places + 1 - digits.length) '0' ++ digits
  padded.take (padded.length - places) ++ '.' :: padded.drop (padded.length - places)

/-- Text of a double that is no number or infinite. -/
def special (x : Float) : String :=
  if x.isNaN then "NaN" else if x < 0 then "-inf" else "inf"

def signed (negative : Bool) (text : List Char) : String :=
  String.ofList (if negative then '-' :: text else text)

/-- How the digits of a double are laid out. -/
structure Layout where
  /-- Whether a whole number ends in `.0`. -/
  wholePoint : Bool
  /-- Least and largest number of digits before the point in positional notation, a negative count
  being zeros after it. Numbers outside are written with an exponent. -/
  positional : Option (Int × Int)
  /-- Which of two equally near candidates for the last digit is written. -/
  tie : Tie

/-- Always positional, whole numbers without a point. -/
def Layout.plain : Layout := ⟨false, none, .up⟩

/-- Positional from `1e-5` to below `1e16`, whole numbers ending in `.0`. -/
def Layout.pointed : Layout := ⟨true, some (-4, 16), .even⟩

/-- Positional from `1e-4` to below `1e16`, whole numbers ending in `.0`. -/
def Layout.detailed : Layout := ⟨true, some (-3, 16), .up⟩

/-- Digits of `d * 10 ^ e` in positional notation. -/
def Layout.position (l : Layout) (digits : List Char) (e : Int) : List Char :=
  if 0 ≤ e then
    digits ++ List.replicate e.toNat '0' ++ (if l.wholePoint then ['.', '0'] else [])
  else withPoint digits (-e).toNat

/-- Digits of `d * 10 ^ e` with one digit before the point and an exponent. -/
def scientific (digits : List Char) (e : Int) : List Char :=
  (if digits.length = 1 then digits else withPoint digits (digits.length - 1)) ++
    'e' :: (toString (digits.length + e - 1)).toList

def Layout.render (l : Layout) (x : Float) : String :=
  if !x.isFinite then special x else
    let p := parts x
    let (d, e) := shortest l.tie p
    let digits := Nat.toDigits 10 d
    let scale : Int := digits.length + e
    signed p.negative <|
      match l.positional with
      | some (least, most) =>
        if d = 0 ∨ (least ≤ scale ∧ scale ≤ most) then l.position digits e
        else scientific digits e
      | none => l.position digits e

def plain (x : Float) : String := Layout.plain.render x

def pointed (x : Float) : String := Layout.pointed.render x

def detailed (x : Float) : String := Layout.detailed.render x

/-- Value of a list of decimal digits. -/
def digitsValue (cs : List Char) : Nat :=
  cs.foldl (fun n c => 10 * n + (c.toNat - '0'.toNat)) 0

/-- The digits at the front, and the rest. -/
def spanDigits (cs : List Char) : List Char × List Char :=
  (cs.takeWhile Char.isDigit, cs.dropWhile Char.isDigit)

/-- Splits off a sign, which may be missing. -/
def spanSign : List Char → Bool × List Char
  | '-' :: cs => (true, cs)
  | '+' :: cs => (false, cs)
  | cs => (false, cs)

/-- Reads what may follow the digits of a number: nothing, or an exponent. -/
def exponent? : List Char → Option Int
  | [] => some 0
  | c :: cs =>
    if c = 'e' ∨ c = 'E' then
      let (negative, rest) := spanSign cs
      let (digits, tail) := spanDigits rest
      if digits.isEmpty ∨ !tail.isEmpty then none
      else some (if negative then -(digitsValue digits : Int) else digitsValue digits)
    else none

/-- Reads a number without its sign: digits with at most one point among or beside them, and
optionally an exponent. -/
def unsigned? (negative : Bool) (cs : List Char) : Option Float :=
  let (whole, rest) := spanDigits cs
  let (fraction, tail) := match rest with
    | '.' :: after => spanDigits after
    | _ => ([], rest)
  if whole.isEmpty && fraction.isEmpty then none
  else (exponent? tail).map fun e =>
    toFloat negative (digitsValue (whole ++ fraction)) (e - fraction.length)

/-- Reads a decimal number, or one of `inf`, `infinity` and `nan` in any case. All may have a
sign. -/
def read? (text : String) : Option Float :=
  let (negative, body) := spanSign text.toList
  let word := String.ofList (body.map Char.toLower)
  if word = "inf" ∨ word = "infinity" then
    some (if negative then -1.0 / 0.0 else 1.0 / 0.0)
  else if word = "nan" then some (0.0 / 0.0)
  else unsigned? negative body

end Egress.Text.Decimal
