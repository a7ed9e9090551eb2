namespace UnitCalc.Number

-- `(-1) ^ negative * significand * 10 ^ exponent`.
structure Decimal where
  negative : Bool
  significand : Nat
  exponent : Int
  deriving DecidableEq, Repr

namespace Decimal

-- The floating-point number nearest to a decimal.
def toFloat (d : Decimal) : Float :=
  let size := Float.ofScientific d.significand (d.exponent < 0) d.exponent.natAbs
  if d.negative then -size else size

end Decimal

def digitValue (c : Char) : Nat :=
  c.toNat - '0'.toNat

-- The number that some digits spell.
def ofDigits (ds : List Char) : Nat :=
  ds.foldl (fun n c => 10 * n + digitValue c) 0

-- Splits off an optional sign.
def readSign : List Char → Bool × List Char
  | '-' :: cs => (true, cs)
  | '+' :: cs => (false, cs)
  | cs => (false, cs)

-- An exponent that ends the text, or nothing.
def readExponent? : List Char → Option Int
  | [] => some 0
  | c :: cs =>
      if c == 'e' || c == 'E' then
        let (negative, ds) := readSign cs
        if ds.isEmpty || !ds.all Char.isDigit then none
        else some (if negative then -(ofDigits ds : Int) else ofDigits ds)
      else
        none

def readDecimal? (negative : Bool) (cs : List Char) : Option Decimal :=
  let whole := cs.takeWhile Char.isDigit
  let (fraction, rest) := match cs.drop whole.length with
    | '.' :: r => (r.takeWhile Char.isDigit, r.dropWhile Char.isDigit)
    | r => ([], r)
  if whole.isEmpty && fraction.isEmpty then
    none
  else
    (readExponent? rest).map fun e =>
      ⟨negative, ofDigits (whole ++ fraction), e - fraction.length⟩

def infinity : Float := 1.0 / 0.0

def notANumber : Float := 0.0 / 0.0

-- The number that a text spells: an optional sign, digits with at most one point and at least one
-- digit, and an optional exponent; or a name for infinity or for what is not a number, in any case.
def read? (s : String) : Option Float :=
  let (negative, cs) := readSign s.toList
  let name := String.ofList (cs.map Char.toLower)
  if name == "inf" || name == "infinity" then
    some (if negative then -infinity else infinity)
  else if name == "nan" then
    some notANumber
  else
    (readDecimal? negative cs).map Decimal.toFloat

end UnitCalc.Number
