import UnitCalc.Units.Measure

namespace UnitCalc

inductive Standard where
  | si
  | us
  | imperial
  deriving DecidableEq, Repr

namespace Standard

def display : Standard → String
  | si => "SI"
  | us => "US"
  | imperial => "Imperial"

-- The standard of that name, in any case.
def ofName? (name : String) : Option Standard :=
  let lower := String.ofList (name.toList.map Char.toLower)
  if lower == "si" then some si
  else if lower == "us" then some us
  else if lower == "imperial" || lower == "imp" then some imperial
  else none

end Standard

-- A decimal multiple such as kilo.
structure Multiple (α : Type) where
  name : String
  symbol : String
  factor : α
  exponent : Int
  deriving DecidableEq

namespace Multiple

-- Whether it leaves units as they are.
def isIdentity {α : Type} (p : Multiple α) : Bool :=
  p.exponent == 0

end Multiple

structure UnitDef (α : Type) where
  standard : Standard
  quantity : String
  name : String
  symbol : String
  measure : Measure α
  -- Whether decimal multiples of it are units too.
  takesMultiples : Bool
  aliases : List String
  deriving DecidableEq

namespace UnitDef

variable {α : Type}

def multiplicative [OfNat α 0] (standard : Standard) (quantity name symbol : String)
    (dim : Dimension) (scale : α) : UnitDef α :=
  ⟨standard, quantity, name, symbol, .multiplicative dim scale, false, []⟩

def affine (standard : Standard) (quantity name symbol : String) (dim : Dimension)
    (scale offset : α) : UnitDef α :=
  ⟨standard, quantity, name, symbol, ⟨dim, scale, offset, .affine⟩, false, []⟩

def isAffine (u : UnitDef α) : Bool :=
  u.measure.isAffine

-- Allows for decimal multiples; affine units have none.
def withMultiples (u : UnitDef α) : UnitDef α :=
  { u with takesMultiples := !u.isAffine }

def withAliases (u : UnitDef α) (aliases : List String) : UnitDef α :=
  { u with aliases := aliases }

-- A decimal multiple of a unit. It has no multiples and no aliases of its own.
def scaled [Mul α] (u : UnitDef α) (p : Multiple α) : UnitDef α :=
  { u with
    name := p.name ++ u.name
    symbol := p.symbol ++ u.symbol
    measure := { u.measure with scale := u.measure.scale * p.factor }
    takesMultiples := false
    aliases := [] }

def display (u : UnitDef Float) : String :=
  u.symbol ++ " = " ++ Number.display u.measure.scale ++
    (if u.measure.dim.isOne then "" else " " ++ u.measure.dim.display) ++
    (if u.isAffine then " + " ++ Number.display u.measure.offset else "") ++
    " (" ++ u.name ++ ", " ++ u.quantity ++ ")"

end UnitDef

-- The units of one standard, with the multiples that they may take.
structure Catalog (α : Type) where
  standard : Standard
  multiples : List (Multiple α)
  units : List (UnitDef α)
  deriving DecidableEq

end UnitCalc
