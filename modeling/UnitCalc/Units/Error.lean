import UnitCalc.Dimension.Basic
import UnitCalc.Report

namespace UnitCalc

-- Why a definition is refused.
inductive DefinitionFault where
  | blankSymbol
  | badScale
  | badOffset
  | offsetWithoutAffine
  deriving DecidableEq, Repr

namespace DefinitionFault

def message : DefinitionFault → String
  | blankSymbol => "symbol is empty"
  | badScale => "scale must be finite and non-zero"
  | badOffset => "offset must be finite"
  | offsetWithoutAffine => "only affine units may have an offset"

end DefinitionFault

inductive UnitError where
  | unknownSymbol (symbol : String)
  | overrideExists (symbol : String)
  | exponentOutOfRange (exponent : Int)
  | incompatible (source target : Dimension)
  | affineInCompound (expr : String)
  | invalidDefinition (symbol : String) (fault : DefinitionFault)
  | malformedOverrides
  deriving DecidableEq

namespace UnitError

def report : UnitError → Report
  | unknownSymbol symbol => { message := "unknown unit '" ++ symbol ++ "'" }
  | overrideExists symbol =>
      { message := "an override for '" ++ symbol ++ "' already exists"
        advice := some "pass overwrite = true to replace it" }
  | exponentOutOfRange exponent =>
      { message := "dimension exponent " ++ toString exponent ++ " is outside [-" ++
          toString Exponents.maxPower ++ ", " ++ toString Exponents.maxPower ++ "]" }
  | incompatible source target =>
      { message := "cannot convert [" ++ source.display ++ "] to [" ++ target.display ++
          "]: dimensions differ" }
  | affineInCompound expr =>
      { message := "affine unit inside compound unit '" ++ expr ++ "'"
        advice := some "convert to an absolute scale such as K first" }
  | invalidDefinition symbol fault =>
      { message := "invalid definition for '" ++ symbol ++ "': " ++ fault.message }
  | malformedOverrides => { message := "malformed unit override file" }

-- The outcome of dimension arithmetic, with its error as an error about units.
def ofExponent (r : Except Int Dimension) : Except UnitError Dimension :=
  r.mapError exponentOutOfRange

end UnitError

end UnitCalc
