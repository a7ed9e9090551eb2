import UnitCalc.Text.Span
import UnitCalc.Units.Registry

namespace UnitCalc

-- Unit expressions such as `kN/mm^2`, with names of units as leaves.
inductive UnitExpr where
  | name (symbol : String) (span : Span)
  | mul (left right : UnitExpr)
  | div (left right : UnitExpr)
  | pow (base : UnitExpr) (exponent : Int)
  | group (inner : UnitExpr)
  deriving DecidableEq, Repr

namespace UnitExpr

-- The source from the first leaf through the last.
def span : UnitExpr → Span
  | name _ span => span
  | mul left right => left.span.join right.span
  | div left right => left.span.join right.span
  | pow base _ => base.span
  | group inner => inner.span

def display : UnitExpr → String
  | name symbol _ => symbol
  | mul left right => left.display ++ "*" ++ right.display
  | div left right => left.display ++ "/" ++ right.display
  | pow base exponent => base.display ++ "^" ++ toString exponent
  | group inner => "(" ++ inner.display ++ ")"

-- A part of the compound expression `whole`. An offset has no meaning there.
def operand {α : Type} (whole : UnitExpr) (m : Measure α) : Except UnitError (Measure α) :=
  if m.isAffine then .error (.affineInCompound whole.display) else .ok m

-- What an expression measures. A unit by itself keeps its offset, also in parentheses.
def reduce {α : Type} [Mul α] [Div α] [OfNat α 0] [OfNat α 1] (r : Registry α) :
    UnitExpr → Except UnitError (Measure α)
  | name symbol _ => do
      let u ← r.find symbol
      return u.measure
  | group inner => inner.reduce r
  | mul left right => do
      let a ← operand (mul left right) (← left.reduce r)
      let b ← operand (mul left right) (← right.reduce r)
      let dim ← UnitError.ofExponent (a.dim.multiply b.dim)
      return .multiplicative dim (a.scale * b.scale)
  | div left right => do
      let a ← operand (div left right) (← left.reduce r)
      let b ← operand (div left right) (← right.reduce r)
      let dim ← UnitError.ofExponent (a.dim.divide b.dim)
      return .multiplicative dim (a.scale / b.scale)
  | pow base exponent => do
      let a ← operand (pow base exponent) (← base.reduce r)
      let dim ← UnitError.ofExponent (a.dim.pow exponent)
      return .multiplicative dim (powInt a.scale exponent)

end UnitExpr

namespace Registry

-- A value in one named unit as a value in another.
def convert {α : Type} [Mul α] [Add α] [Sub α] [Div α] (r : Registry α) (value : α)
    (source target : String) : Except UnitError α := do
  let a ← r.find source
  let b ← r.find target
  a.measure.convert b.measure value

end Registry

end UnitCalc
