import UnitCalc.Dimension.Named
import UnitCalc.Units.Definition

namespace UnitCalc.Catalog

open Dimension.Named

def inch : Float := 0.0254
def foot : Float := 0.3048
def yard : Float := 0.9144
def mile : Float := 1609.344
def pound : Float := 0.45359237
def gravity : Float := 9.80665
def psi : Float := 6894.757293168361
def ksi : Float := psi * 1000.0
def usGallon : Float := 0.003785411784

-- Degrees Fahrenheit, which more than one standard has.
def fahrenheit (standard : Standard) : UnitDef Float :=
  (UnitDef.affine standard "temperature" "degree Fahrenheit" "°F" temperature
    (5.0 / 9.0) 255.3722222222222).withAliases ["degF", "fahrenheit"]

def us : Catalog Float :=
  let unit := UnitDef.multiplicative Standard.us
  { standard := .us
    multiples := []
    units := [
      unit "length" "inch" "in" length inch,
      unit "length" "foot" "ft" length foot,
      unit "length" "yard" "yd" length yard,
      unit "length" "mile" "mi" length mile,
      (unit "mass" "pound" "lb" mass pound).withAliases ["lbm"],
      unit "force" "pound-force" "lbf" force (pound * gravity),
      unit "pressure, stress" "pound per square inch" "psi" pressure psi,
      unit "pressure, stress" "kip per square inch" "ksi" pressure ksi,
      unit "volume" "US gallon" "gal" volume usGallon,
      fahrenheit .us] }

end UnitCalc.Catalog
