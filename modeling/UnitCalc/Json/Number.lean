import UnitCalc.Number.Decimal

namespace UnitCalc

-- A number as it is written.
structure JsonNumber where
  negative : Bool
  whole : List Char
  -- The digits after the point, if there is one.
  fraction : Option (List Char)
  exponent : Option Int
  deriving DecidableEq, Repr

namespace JsonNumber

-- A whole part is zero or starts with another digit.
def isWhole : List Char → Bool
  | [] => false
  | ['0'] => true
  | c :: cs => c != '0' && (c :: cs).all Char.isDigit

def isDigits (cs : List Char) : Bool :=
  !cs.isEmpty && cs.all Char.isDigit

-- An exponent and its mark, or nothing.
def readExponent? : List Char → Option (Option Int)
  | [] => some none
  | c :: cs =>
      if c == 'e' || c == 'E' then
        let (negative, ds) := Number.readSign cs
        if isDigits ds then
          some (some (if negative then -(Number.ofDigits ds : Int) else Number.ofDigits ds))
        else
          none
      else
        none

-- The number that a word is, if it is one.
def read? (word : List Char) : Option JsonNumber :=
  let (negative, cs) := match word with
    | '-' :: cs => (true, cs)
    | cs => (false, cs)
  let whole := cs.takeWhile Char.isDigit
  if isWhole whole then
    match cs.drop whole.length with
    | '.' :: r =>
        let fraction := r.takeWhile Char.isDigit
        if fraction.isEmpty then
          none
        else
          (readExponent? (r.drop fraction.length)).map fun e =>
            ⟨negative, whole, some fraction, e⟩
    | r => (readExponent? r).map fun e => ⟨negative, whole, none, e⟩
  else
    none

-- A word of 64 bits holds less than this.
def wordSize : Nat := 18446744073709551616

-- With a sign, it holds the integers from the opposite of this up to it, itself left out.
def signedSize : Nat := 9223372036854775808

-- The digits that fit into a word after `n`, and those left over.
def absorb (n : Nat) : List Char → Nat × List Char
  | [] => (n, [])
  | c :: cs =>
      let next := 10 * n + Number.digitValue c
      if next < wordSize then absorb next cs else (n, c :: cs)

-- `x * 10 ^ e` in steps that a table of powers through `10 ^ 308` allows for; none when it is too
-- large. Three steps make any number zero.
def scaleBy (steps : Nat) (x : Float) (e : Int) : Option Float :=
  if e.natAbs ≤ 308 then
    let power := Float.ofScientific 1 false e.natAbs
    if 0 ≤ e then
      let y := x * power
      if y.isInf then none else some y
    else
      some (x / power)
  else if x == 0.0 then
    some x
  else if 0 ≤ e then
    none
  else
    match steps with
    | 0 => some x
    | steps + 1 => scaleBy steps (x / 1e308) (e + 308)

-- The floating-point number for a number: its digits as a word, then a power of ten. Whole digits
-- that do not fit into the word count as zeros, and such digits of the fraction are left out. None
-- when the number is too large.
def toFloat? (n : JsonNumber) : Option Float :=
  let (head, dropped) := absorb 0 n.whole
  let fraction := n.fraction.getD []
  let (digits, ignored) := absorb head fraction
  let taken := fraction.length - ignored.length
  let e : Int := dropped.length - taken + n.exponent.getD 0
  let size := scaleBy 4 (Float.ofScientific digits false 0) e
  size.map fun x => if n.negative then -x else x

-- The integer that a number is when it is written as one and fits into 64 bits with a sign. Minus
-- zero is no integer.
def toInt? (n : JsonNumber) : Option Int :=
  match n.fraction, n.exponent with
  | none, none =>
      let size : Int := Number.ofDigits n.whole
      if n.negative then
        if size = 0 ∨ signedSize < size then none else some (-size)
      else
        if signedSize ≤ size then none else some size
  | _, _ => none

end JsonNumber

end UnitCalc
