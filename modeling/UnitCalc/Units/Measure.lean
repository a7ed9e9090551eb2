import UnitCalc.Number.Shortest
import UnitCalc.Units.Error

namespace UnitCalc

inductive Behavior where
  -- `si = value * scale`
  | multiplicative
  -- `si = value * scale + offset`
  | affine
  deriving DecidableEq, Repr

-- What a unit measures: its dimension and how its values map onto the SI scale. The numbers may be
-- of any type with arithmetic; the program uses floating-point numbers.
structure Measure (α : Type) where
  dim : Dimension
  scale : α
  offset : α
  behavior : Behavior
  deriving DecidableEq

namespace Measure

variable {α : Type}

def isAffine (m : Measure α) : Bool :=
  m.behavior == .affine

def multiplicative [OfNat α 0] (dim : Dimension) (scale : α) : Measure α :=
  ⟨dim, scale, 0, .multiplicative⟩

-- Plain numbers.
def scalar [OfNat α 0] [OfNat α 1] : Measure α :=
  multiplicative .one 1

def toSI [Mul α] [Add α] (m : Measure α) (value : α) : α :=
  value * m.scale + m.offset

def fromSI [Sub α] [Div α] (m : Measure α) (value : α) : α :=
  (value - m.offset) / m.scale

-- A value in one unit as a value in another of the same dimension.
def convert [Mul α] [Add α] [Sub α] [Div α] (source target : Measure α) (value : α) :
    Except UnitError α :=
  if source.dim.same target.dim then
    .ok (target.fromSI (source.toSI value))
  else
    .error (.incompatible source.dim target.dim)

def display (m : Measure Float) : String :=
  Number.display m.scale ++ " " ++ m.dim.display ++
    if m.isAffine then " + " ++ Number.display m.offset else ""

end Measure

-- `r * a ^ p`, by squaring.
def mulPow {α : Type} [Mul α] (r a : α) (p : Nat) : α :=
  let r := if p % 2 = 1 then r * a else r
  if p / 2 = 0 then r else mulPow r (a * a) (p / 2)
termination_by p
decreasing_by omega

-- An integer power; a negative one is the inverse of the positive one.
def powInt {α : Type} [Mul α] [Div α] [OfNat α 1] (a : α) (n : Int) : α :=
  let r := mulPow 1 a n.natAbs
  if n < 0 then 1 / r else r

end UnitCalc
