import UnitCalc.Units.Catalog.Imperial
import UnitCalc.Units.Catalog.SI
import UnitCalc.Units.Registry

namespace UnitCalc

-- Units of a later catalog replace those of an earlier one.
def Catalog.all : List (Catalog Float) :=
  [si, us, imperial]

def Registry.default : Registry Float :=
  .ofCatalogs Catalog.all

end UnitCalc
