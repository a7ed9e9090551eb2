import UnitCalc.Units.Expr

namespace UnitCalc

-- A value with an optional unit and an optional unit to give it in.
structure Quantity where
  value : Float
  unit : Option UnitExpr
  target : Option UnitExpr
  deriving DecidableEq

-- The value of a quantity. Without a target it is in SI base units and `unit` is none.
structure Evaluated where
  value : Float
  unit : Option String
  measure : Measure Float
  deriving DecidableEq

namespace Evaluated

def display (e : Evaluated) : String :=
  match e.unit with
  | some unit => Number.display e.value ++ " " ++ unit
  | none =>
      if e.measure.dim.isOne then Number.display e.value
      else Number.display e.value ++ " " ++ e.measure.dim.display

end Evaluated

namespace Quantity

def evaluate (r : Registry Float) (q : Quantity) : Except UnitError Evaluated := do
  let source ← match q.unit with
    | some e => e.reduce r
    | none => .ok .scalar
  match q.target with
  | some target =>
      let measure ← target.reduce r
      let value ← source.convert measure q.value
      return ⟨value, some target.display, measure⟩
  | none => return ⟨source.toSI q.value, none, .multiplicative source.dim 1⟩

end Quantity

end UnitCalc
