import UnitCalc.Dimension.Basic

namespace UnitCalc.Dimension

-- A product of dimensions, which is checked to stay within bounds.
def times (a b : Dimension)
    (bounded : (a.exponents.add b.exponents).Bounded := by decide) : Dimension :=
  ⟨a.exponents.add b.exponents, bounded⟩

def per (a b : Dimension)
    (bounded : (a.exponents.sub b.exponents).Bounded := by decide) : Dimension :=
  ⟨a.exponents.sub b.exponents, bounded⟩

def raised (a : Dimension) (n : Int)
    (bounded : (a.exponents.scale n).Bounded := by decide) : Dimension :=
  ⟨a.exponents.scale n, bounded⟩

namespace Named

def length : Dimension := ⟨{ length := 1 }, by decide⟩
def mass : Dimension := ⟨{ mass := 1 }, by decide⟩
def time : Dimension := ⟨{ time := 1 }, by decide⟩
def current : Dimension := ⟨{ current := 1 }, by decide⟩
def temperature : Dimension := ⟨{ temperature := 1 }, by decide⟩
def substance : Dimension := ⟨{ substance := 1 }, by decide⟩
def luminosity : Dimension := ⟨{ luminosity := 1 }, by decide⟩
def scalar : Dimension := one

-- Geometry and motion.
def area : Dimension := length.raised 2
def volume : Dimension := length.raised 3
def velocity : Dimension := length.per time
def acceleration : Dimension := velocity.per time
def jerk : Dimension := acceleration.per time
def frequency : Dimension := scalar.per time
def angularVelocity : Dimension := scalar.per time
def angularAcceleration : Dimension := angularVelocity.per time

-- Forces and energy.
def force : Dimension := (mass.times length).times (time.raised (-2))
def momentum : Dimension := mass.times velocity
def impulse : Dimension := force.times time
def moment : Dimension := force.times length
def angularMomentum : Dimension := momentum.times length
def energy : Dimension := force.times length
def power : Dimension := energy.per time
def energyDensity : Dimension := energy.per volume
def powerDensity : Dimension := power.per volume

-- How mass is spread.
def density : Dimension := mass.per volume
def linearDensity : Dimension := mass.per length
def surfaceDensity : Dimension := mass.per area
def specificVolume : Dimension := volume.per mass
def specificEnergy : Dimension := energy.per mass

-- Stress and strain.
def pressure : Dimension := force.per area
def stress : Dimension := pressure
def strain : Dimension := scalar
def strainRate : Dimension := strain.per time
def compliance : Dimension := pressure.invert

-- Heat.
def heatFlux : Dimension := power.per area
def thermalConductivity : Dimension := power.per (length.times temperature)
def heatCapacity : Dimension := energy.per temperature
def specificHeatCapacity : Dimension := heatCapacity.per mass
def thermalResistance : Dimension := temperature.per power
def thermalDiffusivity : Dimension := area.per time

-- Flow.
def volumetricFlowRate : Dimension := volume.per time
def massFlowRate : Dimension := mass.per time
def dynamicViscosity : Dimension := pressure.times time
def kinematicViscosity : Dimension := area.per time

-- Electricity and magnetism.
def charge : Dimension := current.times time
def chargeDensity : Dimension := charge.per volume
def currentDensity : Dimension := current.per area
def voltage : Dimension := power.per current
def electricField : Dimension := voltage.per length
def resistance : Dimension := voltage.per current
def conductance : Dimension := resistance.invert
def resistivity : Dimension := resistance.times length
def conductivity : Dimension := resistivity.invert
def capacitance : Dimension := charge.per voltage
def inductance : Dimension := (voltage.times time).per current
def magneticFlux : Dimension := voltage.times time
def magneticFluxDensity : Dimension := magneticFlux.per area
def magneticFieldStrength : Dimension := current.per length
def magneticPermeability : Dimension := magneticFlux.per (current.times length)

end Named

open Named in
-- Every quantity by the name it is asked for.
def named : List (String × Dimension) := [
  ("LENGTH", length), ("MASS", mass), ("TIME", time), ("CURRENT", current),
  ("TEMPERATURE", temperature), ("SUBSTANCE", substance), ("LUMINOSITY", luminosity),
  ("SCALAR", scalar), ("AREA", area), ("VOLUME", volume), ("VELOCITY", velocity),
  ("ACCELERATION", acceleration), ("JERK", jerk), ("FREQUENCY", frequency),
  ("ANGULAR_VELOCITY", angularVelocity), ("ANGULAR_ACCELERATION", angularAcceleration),
  ("FORCE", force), ("MOMENTUM", momentum), ("IMPULSE", impulse), ("MOMENT", moment),
  ("ANGULAR_MOMENTUM", angularMomentum), ("ENERGY", energy), ("POWER", power),
  ("ENERGY_DENSITY", energyDensity), ("POWER_DENSITY", powerDensity), ("DENSITY", density),
  ("LINEAR_DENSITY", linearDensity), ("SURFACE_DENSITY", surfaceDensity),
  ("SPECIFIC_VOLUME", specificVolume), ("SPECIFIC_ENERGY", specificEnergy),
  ("PRESSURE", pressure), ("STRESS", stress), ("STRAIN", strain), ("STRAIN_RATE", strainRate),
  ("COMPLIANCE", compliance), ("HEAT_FLUX", heatFlux),
  ("THERMAL_CONDUCTIVITY", thermalConductivity), ("HEAT_CAPACITY", heatCapacity),
  ("SPECIFIC_HEAT_CAPACITY", specificHeatCapacity), ("THERMAL_RESISTANCE", thermalResistance),
  ("THERMAL_DIFFUSIVITY", thermalDiffusivity), ("VOLUMETRIC_FLOW_RATE", volumetricFlowRate),
  ("MASS_FLOW_RATE", massFlowRate), ("DYNAMIC_VISCOSITY", dynamicViscosity),
  ("KINEMATIC_VISCOSITY", kinematicViscosity), ("CHARGE", charge),
  ("CHARGE_DENSITY", chargeDensity), ("CURRENT_DENSITY", currentDensity), ("VOLTAGE", voltage),
  ("ELECTRIC_FIELD", electricField), ("RESISTANCE", resistance), ("CONDUCTANCE", conductance),
  ("RESISTIVITY", resistivity), ("CONDUCTIVITY", conductivity), ("CAPACITANCE", capacitance),
  ("INDUCTANCE", inductance), ("MAGNETIC_FLUX", magneticFlux),
  ("MAGNETIC_FLUX_DENSITY", magneticFluxDensity),
  ("MAGNETIC_FIELD_STRENGTH", magneticFieldStrength),
  ("MAGNETIC_PERMEABILITY", magneticPermeability)]

def named? (name : String) : Option Dimension :=
  named.lookup name

end UnitCalc.Dimension
