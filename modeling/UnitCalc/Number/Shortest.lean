namespace UnitCalc.Number

-- How many decimal digits a number has; zero has none.
def digitCount (n : Nat) : Nat :=
  if n = 0 then 0 else (Nat.toDigits 10 n).length

-- The least power of ten above a positive fraction, as an exponent: `num / den < 10 ^ k`.
def magnitude (num den : Nat) : Int :=
  if den ≤ num then
    digitCount (num / den)
  else
    1 - digitCount ((den - 1) / num)

-- The numbers that read as a given one lie between two halfway points, which belong to them or not.
-- All three are counted in one unit, `num / den`.
structure Neighbourhood where
  low : Nat
  value : Nat
  high : Nat
  closed : Bool
  num : Nat
  den : Nat
  deriving Repr

namespace Neighbourhood

-- The least mantissa of a number that does not have the smallest spacing.
def leastNormal : Nat := 4503599627370496

-- The neighbourhood of `mantissa * 2 ^ exponent`. Below a power of two the halfway point is nearer,
-- unless the spacing is the smallest there is.
def ofBinary (mantissa : Nat) (exponent : Int) : Neighbourhood :=
  let below := if mantissa = leastNormal ∧ -1074 < exponent then 1 else 2
  let e := exponent - 2
  { low := 4 * mantissa - below
    value := 4 * mantissa
    high := 4 * mantissa + 2
    closed := mantissa % 2 == 0
    num := Nat.pow 2 e.toNat
    den := Nat.pow 2 (-e).toNat }

-- Whether `n / d` lies in the neighbourhood.
def contains (b : Neighbourhood) (n d : Nat) : Bool :=
  let x := n * b.den
  let low := b.low * b.num * d
  let high := b.high * b.num * d
  if b.closed then low ≤ x && x ≤ high else low < x && x < high

-- The multiple of `10 ^ exponent` in the neighbourhood that is nearest to the value, if there is
-- one. Halfway, it is the larger.
def nearest? (b : Neighbourhood) (exponent : Int) : Option Nat :=
  let up := Nat.pow 10 exponent.toNat
  let down := Nat.pow 10 (-exponent).toNat
  let top := b.value * b.num * down
  let unit := b.den * up
  let floor := top / unit
  let takesFloor := b.contains (floor * up) down
  let takesNext := b.contains ((floor + 1) * up) down
  if takesNext && (!takesFloor || unit ≤ 2 * (top % unit)) then
    some (floor + 1)
  else if takesFloor then
    some floor
  else
    none

end Neighbourhood

-- Seventeen digits tell any two numbers apart.
def maxDigits : Nat := 17

-- The shortest digits of `mantissa * 2 ^ exponent`, with the power of ten they count. The next
-- power of ten above the value is tried first: it is one digit, whatever the value's own first
-- digit.
def shortest (mantissa : Nat) (exponent : Int) : Nat × Int :=
  let b := Neighbourhood.ofBinary mantissa exponent
  let k := magnitude (b.value * b.num) b.den
  let found := (List.range (maxDigits + 1)).findSome? fun n : Nat =>
    let e := k - n
    (b.nearest? e).map fun d => (d, e)
  found.getD (b.value * b.num / b.den, 0)

-- `digits * 10 ^ exponent`, written out with a point where one is needed.
def positional (digits : Nat) (exponent : Int) : String :=
  let ds := Nat.toDigits 10 digits
  let zeros (n : Nat) := List.replicate n '0'
  let point := ds.length + exponent
  if 0 ≤ exponent then
    String.ofList (ds ++ zeros exponent.toNat)
  else if 0 < point then
    String.ofList (ds.take point.toNat ++ '.' :: ds.drop point.toNat)
  else
    String.ofList ('0' :: '.' :: zeros (-point).toNat ++ ds)

open Float.Model.UnpackedFloat in
def sign : Sign → String
  | .negative => "-"
  | .positive => ""

-- The decimal text of a number: the fewest digits that read back as the same number, and of those
-- the nearest to it. No exponent is ever written.
def display (x : Float) : String :=
  match x.toModel.unpack with
  | .notANumber => "NaN"
  | .infinity s => sign s ++ "inf"
  | .zero s => sign s ++ "0"
  | .finite s mantissa exponent _ =>
      let (digits, e) := shortest mantissa exponent
      sign s ++ positional digits e

-- The integer that a number is, if it is one.
def toInt? (x : Float) : Option Int :=
  match x.toModel.unpack with
  | .notANumber => none
  | .infinity _ => none
  | .zero _ => some 0
  | .finite s mantissa exponent _ =>
      let den := Nat.pow 2 (-exponent).toNat
      if mantissa % den = 0 then
        let n : Int := (mantissa / den * Nat.pow 2 exponent.toNat : Nat)
        some (match s with
          | .negative => -n
          | .positive => n)
      else
        none

end UnitCalc.Number
