namespace UnitCalc

-- Exponents over the seven base quantities, of any size.
@[ext] structure Exponents where
  length : Int := 0
  mass : Int := 0
  time : Int := 0
  current : Int := 0
  temperature : Int := 0
  substance : Int := 0
  luminosity : Int := 0
  deriving DecidableEq, Repr

namespace Exponents

def toList (a : Exponents) : List Int :=
  [a.length, a.mass, a.time, a.current, a.temperature, a.substance, a.luminosity]

def map (f : Int → Int) (a : Exponents) : Exponents :=
  ⟨f a.length, f a.mass, f a.time, f a.current, f a.temperature, f a.substance, f a.luminosity⟩

def zipWith (f : Int → Int → Int) (a b : Exponents) : Exponents :=
  ⟨f a.length b.length, f a.mass b.mass, f a.time b.time, f a.current b.current,
    f a.temperature b.temperature, f a.substance b.substance, f a.luminosity b.luminosity⟩

def zero : Exponents := {}

def add (a b : Exponents) : Exponents := zipWith (· + ·) a b

def sub (a b : Exponents) : Exponents := zipWith (· - ·) a b

def scale (a : Exponents) (n : Int) : Exponents := a.map (· * n)

theorem toList_map (f : Int → Int) (a : Exponents) : (a.map f).toList = a.toList.map f := rfl

theorem toList_zipWith (f : Int → Int → Int) (a b : Exponents) :
    (zipWith f a b).toList = List.zipWith f a.toList b.toList := rfl

-- The largest size of an exponent in a dimension.
def maxPower : Nat := 16

def Bounded (v : Exponents) : Prop :=
  ∀ e ∈ v.toList, e.natAbs ≤ maxPower

instance (v : Exponents) : Decidable v.Bounded :=
  inferInstanceAs (Decidable (∀ e ∈ v.toList, e.natAbs ≤ maxPower))

-- The first exponent that is too large.
def excess? (v : Exponents) : Option Int :=
  v.toList.find? fun e => decide (maxPower < e.natAbs)

theorem bounded_iff_excess? {v : Exponents} : v.Bounded ↔ v.excess? = none := by
  simp [Bounded, excess?]

end Exponents

structure Dimension where
  exponents : Exponents
  bounded : exponents.Bounded
  deriving DecidableEq

namespace Dimension

theorem ext_exponents {a b : Dimension} (h : a.exponents = b.exponents) : a = b := by
  cases a
  cases b
  cases h
  rfl

-- Exponents as a dimension, or the first of them that is too large.
def ofExponents (v : Exponents) : Except Int Dimension :=
  match h : v.excess? with
  | some e => .error e
  | none => .ok ⟨v, Exponents.bounded_iff_excess?.mpr h⟩

-- The dimension of plain numbers.
def one : Dimension := ⟨Exponents.zero, by decide⟩

instance : Inhabited Dimension := ⟨one⟩

def isOne (d : Dimension) : Bool :=
  d == one

def multiply (a b : Dimension) : Except Int Dimension :=
  ofExponents (a.exponents.add b.exponents)

def divide (a b : Dimension) : Except Int Dimension :=
  ofExponents (a.exponents.sub b.exponents)

def pow (a : Dimension) (n : Int) : Except Int Dimension :=
  ofExponents (a.exponents.scale n)

-- The opposite dimension. Bounds are symmetric, so there always is one.
def invert (a : Dimension) : Dimension :=
  ⟨a.exponents.map (- ·), by
    intro e he
    simp only [Exponents.toList_map, List.mem_map] at he
    obtain ⟨x, hx, rfl⟩ := he
    have := a.bounded x hx
    rwa [Int.natAbs_neg]⟩

-- Whether a value of one dimension can be given in another.
def same (a b : Dimension) : Bool :=
  a == b

-- Whether two dimensions agree when plain numbers agree with everything.
def sameOrScalar (a b : Dimension) : Bool :=
  a.isOne || b.isOne || a.same b

-- The symbols of the base units.
def baseSymbols : List String := ["m", "kg", "s", "A", "K", "mol", "cd"]

-- One base unit with its exponent, which is left out when it is one.
def displayPower (symbol : String) (e : Int) : String :=
  if e = 1 then symbol else symbol ++ "^" ++ toString e

-- The base units with an exponent that is not zero, or `1` when there is none.
def display (d : Dimension) : String :=
  if d.isOne then
    "1"
  else
    let powers := (baseSymbols.zip d.exponents.toList).filter fun (_, e) => e ≠ 0
    " ".intercalate (powers.map fun (s, e) => displayPower s e)

end Dimension

end UnitCalc
