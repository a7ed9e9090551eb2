import UnitCalc.Dimension.Named
import UnitCalc.Units.Definition

namespace UnitCalc.Catalog

open Dimension.Named

-- From the largest to the smallest, with the empty one in the middle.
def siMultiples : List (Multiple Float) := [
  ⟨"quetta", "Q", 1e30, 30⟩, ⟨"ronna", "R", 1e27, 27⟩, ⟨"yotta", "Y", 1e24, 24⟩,
  ⟨"zetta", "Z", 1e21, 21⟩, ⟨"exa", "E", 1e18, 18⟩, ⟨"peta", "P", 1e15, 15⟩,
  ⟨"tera", "T", 1e12, 12⟩, ⟨"giga", "G", 1e9, 9⟩, ⟨"mega", "M", 1e6, 6⟩, ⟨"kilo", "k", 1e3, 3⟩,
  ⟨"hecto", "h", 1e2, 2⟩, ⟨"deca", "da", 1e1, 1⟩, ⟨"", "", 1e0, 0⟩, ⟨"deci", "d", 1e-1, -1⟩,
  ⟨"centi", "c", 1e-2, -2⟩, ⟨"milli", "m", 1e-3, -3⟩, ⟨"micro", "µ", 1e-6, -6⟩,
  ⟨"nano", "n", 1e-9, -9⟩, ⟨"pico", "p", 1e-12, -12⟩, ⟨"femto", "f", 1e-15, -15⟩,
  ⟨"atto", "a", 1e-18, -18⟩, ⟨"zepto", "z", 1e-21, -21⟩, ⟨"yocto", "y", 1e-24, -24⟩,
  ⟨"ronto", "r", 1e-27, -27⟩, ⟨"quecto", "q", 1e-30, -30⟩]

def pi : Float := 3.141592653589793

def si : Catalog Float :=
  let unit := UnitDef.multiplicative Standard.si
  { standard := .si
    multiples := siMultiples
    units := [
      -- Base units.
      (unit "length" "metre" "m" length 1.0).withMultiples.withAliases ["meter", "metre"],
      (unit "mass" "kilogram" "kg" mass 1.0).withAliases ["kilogram"],
      (unit "time" "second" "s" time 1.0).withMultiples.withAliases ["sec", "second"],
      (unit "current" "ampere" "A" current 1.0).withMultiples,
      (unit "temperature" "kelvin" "K" temperature 1.0).withMultiples,
      (unit "substance" "mole" "mol" substance 1.0).withMultiples,
      (unit "luminous intensity" "candela" "cd" luminosity 1.0).withMultiples,
      -- The gram takes multiples, and the kilogram does not.
      (unit "mass" "gram" "g" mass 1e-3).withMultiples,
      -- Angles.
      unit "plane angle" "radian" "rad" scalar 1.0,
      unit "solid angle" "steradian" "sr" scalar 1.0,
      (unit "plane angle" "degree" "deg" scalar (pi / 180.0)).withAliases ["°"],
      unit "plane angle" "revolution" "rev" scalar (2.0 * pi),
      -- Time.
      unit "time" "minute" "min" time 60.0,
      (unit "time" "hour" "h" time 3600.0).withAliases ["hr"],
      unit "time" "day" "d" time 86400.0,
      (UnitDef.affine .si "temperature" "degree Celsius" "°C" temperature 1.0 273.15).withAliases
        ["degC", "celsius"],
      -- Derived units with names of their own.
      (unit "frequency" "hertz" "Hz" frequency 1.0).withMultiples,
      (unit "force" "newton" "N" force 1.0).withMultiples,
      (unit "pressure, stress" "pascal" "Pa" pressure 1.0).withMultiples,
      (unit "energy, work, heat" "joule" "J" energy 1.0).withMultiples,
      (unit "power" "watt" "W" power 1.0).withMultiples,
      (unit "charge" "coulomb" "C" charge 1.0).withMultiples,
      (unit "voltage" "volt" "V" voltage 1.0).withMultiples,
      (unit "capacitance" "farad" "F" capacitance 1.0).withMultiples,
      (unit "resistance" "ohm" "Ω" resistance 1.0).withMultiples.withAliases ["ohm"],
      (unit "conductance" "siemens" "S" conductance 1.0).withMultiples,
      (unit "magnetic flux" "weber" "Wb" magneticFlux 1.0).withMultiples,
      (unit "magnetic flux density" "tesla" "T" magneticFluxDensity 1.0).withMultiples,
      (unit "inductance" "henry" "H" inductance 1.0).withMultiples,
      -- Accepted for use with SI.
      (unit "volume" "litre" "L" volume 1e-3).withMultiples.withAliases ["l", "liter", "litre"],
      (unit "pressure" "bar" "bar" pressure 1e5).withMultiples,
      unit "pressure" "standard atmosphere" "atm" pressure 101325.0,
      (unit "mass" "tonne" "t" mass 1000.0).withAliases ["tonne", "metric ton", "metric tonne"]] }

end UnitCalc.Catalog
