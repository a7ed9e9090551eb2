import Mathlib.Algebra.Group.Int.Defs
import Mathlib.Algebra.Group.Nat.Defs
import UnitCalc.Dimension.Basic

namespace UnitCalc

namespace Exponents

section

variable (a b c : Exponents) (m n : Int)

theorem add_comm : a.add b = b.add a := by
  ext <;> exact Int.add_comm _ _

theorem add_assoc : (a.add b).add c = a.add (b.add c) := by
  ext <;> exact Int.add_assoc _ _ _

theorem sub_eq_add : a.sub b = a.add (b.map (- ·)) := by
  ext <;> exact Int.sub_eq_add_neg

theorem scale_zero : a.scale 0 = zero := by
  ext <;> exact Int.mul_zero _

theorem scale_add_one : a.scale (n + 1) = (a.scale n).add a := by
  ext <;> exact (Int.mul_add _ _ _).trans (congrArg _ (Int.mul_one _))

theorem scale_scale : (a.scale m).scale n = a.scale (m * n) := by
  ext <;> exact Int.mul_assoc _ _ _

theorem scale_neg : a.scale (-n) = (a.scale n).map (- ·) := by
  ext <;> exact Int.mul_neg _ _

end

theorem map_congr {a : Exponents} {f g : Int → Int} (h : ∀ e ∈ a.toList, f e = g e) :
    a.map f = a.map g := by
  ext <;> exact h _ (by simp [toList])

theorem bounded_iff_exists {v : Exponents} :
    v.Bounded ↔ ∃ dim : Dimension, dim.exponents = v := by
  constructor
  · intro h
    exact ⟨⟨v, h⟩, rfl⟩
  · rintro ⟨dim, rfl⟩
    exact dim.bounded

theorem toList_inj {a b : Exponents} : a.toList = b.toList ↔ a = b := by
  constructor
  · intro h
    cases a
    cases b
    simpa [toList] using h
  · exact congrArg toList

theorem mem_scale {a : Exponents} {n x : Int} :
    x ∈ (a.scale n).toList ↔ ∃ e ∈ a.toList, e * n = x := by
  rw [scale, toList_map, List.mem_map]

-- Where a power is in range, so is the one before it.
theorem bounded_scale_of_succ {a : Exponents} {n : Nat}
    (h : (a.scale ((n + 1 : Nat) : Int)).Bounded) : (a.scale n).Bounded := by
  intro x hx
  obtain ⟨e, he, rfl⟩ := mem_scale.mp hx
  have hnext := h (e * ((n + 1 : Nat) : Int)) (mem_scale.mpr ⟨e, he, rfl⟩)
  rw [Int.natAbs_mul, Int.natAbs_natCast] at hnext ⊢
  exact Nat.le_trans (Nat.mul_le_mul_left _ (Nat.le_succ n)) hnext

end Exponents

namespace Dimension

variable {a b c d : Dimension} {v : Exponents} {e : Int}

theorem ofExponents_eq_ok_iff : ofExponents v = .ok d ↔ d.exponents = v := by
  have hbounded := Exponents.bounded_iff_excess? (v := v)
  unfold ofExponents
  split
  case h_1 e hexcess =>
    constructor
    · intro h
      cases h
    · rintro rfl
      rw [hbounded.mp d.bounded] at hexcess
      cases hexcess
  case h_2 hexcess =>
    constructor
    · intro h
      cases h
      rfl
    · rintro rfl
      rfl

-- Whether a number can be an exponent.
def InRange (e : Int) : Prop :=
  -16 ≤ e ∧ e ≤ 16

theorem inRange_iff : InRange e ↔ e.natAbs ≤ Exponents.maxPower := by
  simp only [InRange, Exponents.maxPower]
  omega

-- Whether a number is the first one in a list that cannot be an exponent.
def FirstOutside (es : List Int) (e : Int) : Prop :=
  ∃ before after, es = before ++ e :: after ∧ (∀ x ∈ before, InRange x) ∧ ¬InRange e

theorem excess?_eq_some_iff : v.excess? = some e ↔ FirstOutside v.toList e := by
  simp only [Exponents.excess?, List.find?_eq_some_iff_append, FirstOutside, inRange_iff,
    decide_eq_true_eq, Bool.not_eq_true', decide_eq_false_iff_not, Nat.not_lt]
  constructor
  · rintro ⟨he, before, after, hv, hbefore⟩
    exact ⟨before, after, hv, hbefore, Nat.not_le.mpr he⟩
  · rintro ⟨before, after, hv, hbefore, he⟩
    exact ⟨Nat.not_le.mp he, before, after, hv, hbefore⟩

theorem ofExponents_eq_error_iff : ofExponents v = .error e ↔ FirstOutside v.toList e := by
  rw [← excess?_eq_some_iff]
  unfold ofExponents
  split
  case h_1 e' hexcess => simp [hexcess]
  case h_2 hexcess => simp [hexcess]

theorem forall_inRange : ∀ e ∈ d.exponents.toList, InRange e :=
  fun e he => inRange_iff.mpr (d.bounded e he)

theorem multiply_eq_ok_iff : a.multiply b = .ok d ↔ d.exponents = a.exponents.add b.exponents :=
  ofExponents_eq_ok_iff

theorem pow_eq_ok_iff {n : Int} : a.pow n = .ok d ↔ d.exponents = a.exponents.scale n :=
  ofExponents_eq_ok_iff

theorem multiply_comm (a b : Dimension) : a.multiply b = b.multiply a := by
  rw [multiply, multiply, Exponents.add_comm]

theorem divide_eq_multiply_invert (a b : Dimension) : a.divide b = a.multiply b.invert := by
  rw [divide, multiply, Exponents.sub_eq_add, invert]

-- Both ways to put the parentheses give the same, where both can be had. One of them may fail
-- alone.
theorem multiply_assoc {ab bc d' : Dimension} (hab : a.multiply b = .ok ab)
    (hd : ab.multiply c = .ok d) (hbc : b.multiply c = .ok bc) (hd' : a.multiply bc = .ok d') :
    d = d' := by
  rw [multiply_eq_ok_iff] at hab hd hbc hd'
  apply ext_exponents
  rw [hd, hd', hab, hbc, Exponents.add_assoc]

-- One multiplied by a dimension some number of times, if each of the products can be had.
def timesOver (a : Dimension) : Nat → Except Int Dimension
  | 0 => .ok one
  | n + 1 => do (← timesOver a n).multiply a

theorem timesOver_eq_ok_iff {n : Nat} :
    a.timesOver n = .ok d ↔ d.exponents = a.exponents.scale n := by
  induction n generalizing d with
  | zero =>
      have hzero : a.exponents.scale (0 : Nat) = one.exponents := Exponents.scale_zero _
      rw [timesOver, hzero]
      constructor
      · intro h
        cases h
        rfl
      · intro h
        rw [ext_exponents h]
  | succ n ih =>
      have hsucc : a.exponents.scale (n + 1 : Nat) = (a.exponents.scale n).add a.exponents := by
        rw [Int.natCast_add, Int.natCast_one, Exponents.scale_add_one]
      constructor
      · intro h
        cases hn : a.timesOver n with
        | error e =>
            rw [timesOver, hn] at h
            cases h
        | ok x =>
            rw [timesOver, hn] at h
            rw [multiply_eq_ok_iff.mp h, ih.mp hn, hsucc]
      · intro h
        -- A product that is too large cannot come back into range.
        obtain ⟨x, hx⟩ := Exponents.bounded_iff_exists.mp
          (Exponents.bounded_scale_of_succ (h ▸ d.bounded))
        rw [timesOver, ih.mpr hx]
        exact multiply_eq_ok_iff.mpr (by rw [h, hx, hsucc])

theorem pow_natCast_eq_ok_iff {n : Nat} : a.pow n = .ok d ↔ a.timesOver n = .ok d :=
  pow_eq_ok_iff.trans timesOver_eq_ok_iff.symm

theorem exponents_invert (a : Dimension) : a.invert.exponents = a.exponents.map (- ·) := rfl

theorem pow_neg {n : Int} (h : a.pow n = .ok d) : a.pow (-n) = .ok d.invert := by
  rw [pow_eq_ok_iff] at h ⊢
  rw [exponents_invert, h, Exponents.scale_neg]

-- The bounds of exponents are symmetric, so a power and its inverse fail together.
theorem exists_pow_neg_iff {n : Int} : (∃ d, a.pow (-n) = .ok d) ↔ ∃ d, a.pow n = .ok d := by
  constructor
  · rintro ⟨d, h⟩
    refine ⟨d.invert, ?_⟩
    rw [← Int.neg_neg n]
    exact pow_neg h
  · rintro ⟨d, h⟩
    exact ⟨d.invert, pow_neg h⟩

theorem pow_pow {m : Int} (h : a.pow m = .ok d) (n : Int) : d.pow n = a.pow (m * n) := by
  rw [pow, pow, pow_eq_ok_iff.mp h, Exponents.scale_scale]

-- A number as the nearest word of 64 bits.
def saturate (x : Int) : Int :=
  max (-2 ^ 63) (min x (2 ^ 63 - 1))

-- A power of 32 bits takes no exponent out of 64 bits.
theorem saturate_mul (he : InRange e) {n : Int} (hn : -2 ^ 31 ≤ n ∧ n < 2 ^ 31) :
    saturate (e * n) = e * n := by
  have hsize : (e * n).natAbs ≤ 16 * 2 ^ 31 := by
    rw [Int.natAbs_mul]
    exact Nat.mul_le_mul (inRange_iff.mp he) (by omega)
  simp only [saturate]
  omega

-- So it does not matter that the products of a power are held in words.
theorem pow_eq_saturated (a : Dimension) {n : Int} (hn : -2 ^ 31 ≤ n ∧ n < 2 ^ 31) :
    a.pow n = ofExponents (a.exponents.map fun e => saturate (e * n)) := by
  rw [pow, Exponents.scale]
  exact congrArg ofExponents
    (Exponents.map_congr fun e he => (saturate_mul (forall_inRange e he) hn).symm)

-- Dimensions are multiplied by adding their exponents, which fails just when one of the sums is no
-- exponent, and then with the first of these. The laws of groups hold with the same errors on both
-- sides, and a power is a product of as many factors, also in whether it can be had.
theorem group_laws (a b c : Dimension) (m n : Int) :
    (∀ d, a.multiply b = .ok d ↔
      (∀ e ∈ List.zipWith (· + ·) a.exponents.toList b.exponents.toList, InRange e) ∧
        d.exponents.toList = List.zipWith (· + ·) a.exponents.toList b.exponents.toList) ∧
    (∀ e, a.multiply b = .error e ↔
      FirstOutside (List.zipWith (· + ·) a.exponents.toList b.exponents.toList) e) ∧
    a.multiply b = b.multiply a ∧
    a.divide b = a.multiply b.invert ∧
    (∀ ab bc d d', a.multiply b = .ok ab → ab.multiply c = .ok d → b.multiply c = .ok bc →
      a.multiply bc = .ok d' → d = d') ∧
    (∀ (k : Nat) d, a.pow k = .ok d ↔ a.timesOver k = .ok d) ∧
    ((∃ d, a.pow (-n) = .ok d) ↔ ∃ d, a.pow n = .ok d) ∧
    (∀ d, a.pow n = .ok d → a.pow (-n) = .ok d.invert) ∧
    (∀ d, a.pow m = .ok d → d.pow n = a.pow (m * n)) ∧
    (-2 ^ 31 ≤ n ∧ n < 2 ^ 31 →
      a.pow n = ofExponents (a.exponents.map fun e => saturate (e * n))) := by
  refine ⟨fun d => ?_, fun e => ofExponents_eq_error_iff, multiply_comm a b,
    divide_eq_multiply_invert a b, fun ab bc d d' => multiply_assoc,
    fun k d => pow_natCast_eq_ok_iff, exists_pow_neg_iff, fun d => pow_neg,
    fun d h => pow_pow h n, pow_eq_saturated a⟩
  rw [multiply_eq_ok_iff, ← Exponents.toList_zipWith, Exponents.toList_inj]
  constructor
  · intro h
    exact ⟨fun e he => forall_inRange (d := d) e (h ▸ he), h⟩
  · exact And.right

end Dimension

end UnitCalc
