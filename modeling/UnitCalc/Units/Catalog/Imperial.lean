import UnitCalc.Units.Catalog.US

namespace UnitCalc.Catalog

open Dimension.Named

-- Exactly 4.54609 litres.
def imperialGallon : Float := 4.54609e-3
def imperialQuart : Float := imperialGallon / 4.0
def imperialPint : Float := imperialGallon / 8.0
def imperialFluidOunce : Float := imperialGallon / 160.0

-- Length, the pound and psi have the values that the US catalog gives them.
def imperial : Catalog Float :=
  let unit := UnitDef.multiplicative Standard.imperial
  { standard := .imperial
    multiples := []
    units := [
      unit "length" "inch" "in" length inch,
      unit "length" "foot" "ft" length foot,
      unit "length" "yard" "yd" length yard,
      unit "length" "mile" "mi" length mile,
      unit "mass" "ounce" "oz" mass (pound / 16.0),
      (unit "mass" "pound" "lb" mass pound).withAliases ["lbm"],
      unit "mass" "stone" "st" mass (14.0 * pound),
      (unit "mass" "long ton" "long ton" mass (2240.0 * pound)).withAliases
        ["imperial ton", "ton (imp)"],
      unit "force" "pound-force" "lbf" force (pound * gravity),
      unit "pressure, stress" "pound per square inch" "psi" pressure psi,
      (unit "volume" "imperial gallon" "imp gal" volume imperialGallon).withAliases
        ["gal (imp)", "UK gal"],
      (unit "volume" "imperial quart" "imp qt" volume imperialQuart).withAliases ["qt (imp)"],
      (unit "volume" "imperial pint" "imp pt" volume imperialPint).withAliases ["pt (imp)"],
      (unit "volume" "imperial fluid ounce" "imp fl oz" volume imperialFluidOunce).withAliases
        ["fl oz (imp)"],
      fahrenheit .imperial] }

end UnitCalc.Catalog
