import Mathlib.Tactic.FieldSimp
import Mathlib.Tactic.Ring
import UnitCalc.Dimension.Named
import UnitCalc.Proofs.Units.Reduction

namespace UnitCalc

theorem mulPow_eq (r a : ℚ) (p : ℕ) : mulPow r a p = r * a ^ p := by
  fun_induction mulPow r a p with
  | case1 r a p next h =>
      rcases (by omega : p = 0 ∨ p = 1) with rfl | rfl
      · simp [next]
      · simp [next]
  | case2 r a p next h ih =>
      have hhalf : (a * a) ^ (p / 2) = a ^ (2 * (p / 2)) := by
        rw [← pow_two, ← pow_mul]
      have hsplit := congrArg (a ^ ·) (Nat.div_add_mod p 2)
      simp only [pow_add] at hsplit
      rw [ih, hhalf, ← hsplit]
      rcases Nat.mod_two_eq_zero_or_one p with hp | hp
      · simp [next, hp]
      · simp only [next, hp, dite_true, pow_one]
        ring

-- Powers by squaring are integer powers.
theorem powInt_eq_zpow (a : ℚ) (n : ℤ) : powInt a n = a ^ n := by
  rw [powInt, mulPow_eq, one_mul]
  split
  case isTrue h =>
    have hn : n = -(n.natAbs : ℤ) := by omega
    rw [hn, zpow_neg, zpow_natCast, Int.natAbs_neg, Int.natAbs_natCast, one_div]
  case isFalse h =>
    have hn : n = (n.natAbs : ℤ) := by omega
    rw [hn, zpow_natCast, Int.natAbs_natCast]

namespace Measure

variable {α : Type} [Mul α] [Add α] [Sub α]

-- A conversion with a division of one's own.
def convertBy (divide : α → α → α) (source target : Measure α) (value : α) : Except UnitError α :=
  @convert α _ _ _ ⟨divide⟩ source target value

-- The one number that a conversion divides by is the scale of its target.
theorem convertBy_eq [Div α] {divide : α → α → α} {target : Measure α}
    (h : ∀ x, divide x target.scale = x / target.scale) (source : Measure α) (value : α) :
    source.convertBy divide target value = source.convert target value := by
  have hdivide := h (source.toSI value - target.offset)
  unfold convertBy convert fromSI
  split
  · exact congrArg Except.ok hdivide
  · rfl

end Measure

-- What an expression measures, with a division of one's own.
def UnitExpr.reduceBy {α : Type} [Mul α] [OfNat α 0] [OfNat α 1] (divide : α → α → α)
    (r : Registry α) (e : UnitExpr) : Except UnitError (Measure α) :=
  @UnitExpr.reduce α _ ⟨divide⟩ _ _ r e

-- Whether a division is the division of numbers, but for what it makes of zero.
def Divides (divide : ℚ → ℚ → ℚ) : Prop :=
  ∀ x y, y ≠ 0 → divide x y = x / y

-- Whether no unit of a registry has the scale zero.
def Registry.Scaled (r : Registry ℚ) : Prop :=
  ∀ (symbol : String) (u : UnitDef ℚ),
    r.session.units[symbol]? = some u ∨ r.defaults.units[symbol]? = some u → u.measure.scale ≠ 0

theorem powInt_of_divides {divide : ℚ → ℚ → ℚ} (h : Divides divide) {a : ℚ} (ha : a ≠ 0) (n : ℤ) :
    @powInt ℚ _ ⟨divide⟩ _ a n = powInt a n := by
  have hpow : mulPow 1 a n.natAbs ≠ 0 := by
    rw [mulPow_eq, one_mul]
    exact pow_ne_zero _ ha
  unfold powInt
  split
  · exact h 1 _ hpow
  · rfl

theorem UnitExpr.eq_of_operand_eq_ok {α : Type} {whole : UnitExpr} {m a : Measure α}
    (h : operand whole m = .ok a) : m = a := by
  unfold operand at h
  split at h
  · cases h
  · exact Except.ok.inj h

namespace Registry.Scaled

variable {r : Registry ℚ} (hr : r.Scaled)

include hr

theorem scale_ne_zero_of_find? {name : String} {u : UnitDef ℚ} (h : r.find? name = some u) :
    u.measure.scale ≠ 0 := by
  unfold find? at h
  dsimp only at h
  split at h
  · rename_i v hsession
    cases h
    exact hr _ _ (.inl hsession)
  · exact hr _ _ (.inr h)

-- Products, quotients and powers of scales that are not zero are not zero.
theorem scale_ne_zero {e : UnitExpr} {m : Measure ℚ} (h : UnitExpr.Reduces r e m) :
    m.scale ≠ 0 := by
  induction h with
  | name hfind => exact hr.scale_ne_zero_of_find? hfind
  | group _ ih => exact ih
  | mul _ _ _ _ _ ihleft ihright => exact mul_ne_zero ihleft ihright
  | div _ _ _ _ _ ihleft ihright => exact div_ne_zero ihleft ihright
  | @pow _ exponent a _ _ _ _ ih =>
      show powInt a.scale exponent ≠ 0
      rw [powInt_eq_zpow]
      exact zpow_ne_zero exponent ih

-- So whatever comes of a division by zero, an expression measures the same, or fails the same way.
theorem reduceBy_eq {divide : ℚ → ℚ → ℚ} (hdivide : Divides divide) (e : UnitExpr) :
    e.reduceBy divide r = e.reduce r := by
  unfold UnitExpr.reduceBy
  have hscale {whole e : UnitExpr} {m a : Measure ℚ} (h : e.reduce r = .ok m)
      (ha : UnitExpr.operand whole m = .ok a) : a.scale ≠ 0 := by
    obtain rfl := UnitExpr.eq_of_operand_eq_ok ha
    exact hr.scale_ne_zero (UnitExpr.reduce_eq_ok_iff.mp h)
  induction e with
  | name symbol span => rfl
  | group inner ih => exact ih
  | mul left right ihleft ihright => simp only [UnitExpr.reduce, ihleft, ihright]
  | div left right ihleft ihright =>
      simp only [UnitExpr.reduce, ihleft, ihright]
      refine bind_congr fun m => bind_congr fun a => ?_
      cases hright : right.reduce r with
      | error err => rfl
      | ok n =>
          cases hb : UnitExpr.operand (.div left right) n with
          | error err => simp [bind, Except.bind, hb]
          | ok b =>
              have hquotient : @HDiv.hDiv ℚ ℚ ℚ (@instHDiv ℚ ⟨divide⟩) a.scale b.scale =
                  a.scale / b.scale := hdivide a.scale b.scale (hscale hright hb)
              simp only [bind, Except.bind, hb, hquotient]
  | pow base exponent ih =>
      simp only [UnitExpr.reduce, ih]
      cases hbase : base.reduce r with
      | error err => rfl
      | ok n =>
          cases ha : UnitExpr.operand (.pow base exponent) n with
          | error err => simp [bind, Except.bind, ha]
          | ok a =>
              have hpower := powInt_of_divides hdivide (hscale hbase ha) exponent
              simp only [bind, Except.bind, ha, hpower]

end Registry.Scaled

namespace Measure

variable {source middle target : Measure ℚ}

theorem convert_of_dim_eq (h : source.dim = target.dim) (x : ℚ) :
    source.convert target x = .ok (target.fromSI (source.toSI x)) := by
  simp [convert, Dimension.same, h]

theorem fromSI_toSI (h : source.scale ≠ 0) (x : ℚ) : source.fromSI (source.toSI x) = x := by
  rw [fromSI, toSI, add_sub_cancel_right, mul_div_cancel_right₀ x h]

theorem toSI_fromSI (h : source.scale ≠ 0) (x : ℚ) : source.toSI (source.fromSI x) = x := by
  rw [fromSI, toSI, div_mul_cancel₀ _ h, sub_add_cancel]

end Measure

-- In exact arithmetic, with no unit of scale zero, neither what an expression measures nor a
-- conversion between two expressions depends on what a division by zero would give. Expressions of
-- one dimension can be converted into one another: there and back gives the value again, and over a
-- third expression it comes to the same as straight away.
theorem exact_conversions {r : Registry ℚ} (hr : r.Scaled) :
    (∀ e m, UnitExpr.reduce r e = .ok m → m.scale ≠ 0) ∧
    (∀ divide, Divides divide → (∀ e : UnitExpr, e.reduceBy divide r = e.reduce r) ∧
      ∀ (e : UnitExpr) (source target : Measure ℚ) (x : ℚ), e.reduce r = .ok target →
        source.convertBy divide target x = source.convert target x) ∧
    ∀ (e₁ e₂ e₃ : UnitExpr) (m₁ m₂ m₃ : Measure ℚ), e₁.reduce r = .ok m₁ → e₂.reduce r = .ok m₂ →
      e₃.reduce r = .ok m₃ → m₁.dim = m₂.dim → m₂.dim = m₃.dim →
      ∀ x, ∃ y z, m₁.convert m₂ x = .ok y ∧ m₂.convert m₁ y = .ok x ∧
        m₂.convert m₃ y = .ok z ∧ m₁.convert m₃ x = .ok z := by
  have hscale (e : UnitExpr) (m : Measure ℚ) (h : e.reduce r = .ok m) : m.scale ≠ 0 :=
    hr.scale_ne_zero (UnitExpr.reduce_eq_ok_iff.mp h)
  refine ⟨hscale, fun divide hdivide => ⟨hr.reduceBy_eq hdivide, ?_⟩, ?_⟩
  · intro e source target x htarget
    exact Measure.convertBy_eq (fun x => hdivide x _ (hscale e target htarget)) source x
  · intro e₁ e₂ e₃ m₁ m₂ m₃ h₁ h₂ h₃ h₁₂ h₂₃ x
    refine ⟨_, _, Measure.convert_of_dim_eq h₁₂ x, ?_, Measure.convert_of_dim_eq h₂₃ _, ?_⟩
    · rw [Measure.convert_of_dim_eq h₁₂.symm, Measure.toSI_fromSI (hscale e₂ m₂ h₂),
        Measure.fromSI_toSI (hscale e₁ m₁ h₁)]
    · rw [Measure.convert_of_dim_eq (h₁₂.trans h₂₃), Measure.toSI_fromSI (hscale e₂ m₂ h₂)]

-- Two scales of temperature, which do not start at the same point.
def temperatures : Registry ℚ :=
  let unit (symbol : String) (scale offset : ℚ) : UnitDef ℚ :=
    .affine .si "temperature" symbol symbol Dimension.Named.temperature scale offset
  ⟨(Layer.empty.add (unit "°C" 1 (5463 / 20))).add (unit "°F" (5 / 9) (45967 / 180)), .empty⟩

theorem scaled_temperatures : temperatures.Scaled := by
  intro symbol u h
  simp only [temperatures, Layer.units_add, Layer.empty, Std.ExtTreeMap.getElem?_insert,
    Std.ExtTreeMap.getElem?_empty] at h
  rcases h with h | h
  · cases h
  split at h
  · cases h
    decide +kernel
  split at h
  · cases h
    decide +kernel
  · cases h

theorem exact_conversions_temperatures :
    temperatures.Scaled ∧
    ∃ celsius fahrenheit : Measure ℚ,
      (UnitExpr.name "°C" ⟨0, 3⟩).reduce temperatures = .ok celsius ∧
      (UnitExpr.name "°F" ⟨0, 3⟩).reduce temperatures = .ok fahrenheit ∧
      celsius.dim = fahrenheit.dim ∧ celsius.convert fahrenheit 25 = .ok 77 ∧
      fahrenheit.convert celsius 77 = .ok 25 := by
  let celsius : Measure ℚ := ⟨Dimension.Named.temperature, 1, 5463 / 20, .affine⟩
  let fahrenheit : Measure ℚ := ⟨Dimension.Named.temperature, 5 / 9, 45967 / 180, .affine⟩
  have hcelsius : (UnitExpr.name "°C" ⟨0, 3⟩).reduce temperatures = .ok celsius := by
    decide +kernel
  have hfahrenheit : (UnitExpr.name "°F" ⟨0, 3⟩).reduce temperatures = .ok fahrenheit := by
    decide +kernel
  have hthere : celsius.convert fahrenheit 25 = .ok 77 := by decide +kernel
  obtain ⟨-, -, hconversions⟩ := exact_conversions scaled_temperatures
  obtain ⟨y, z, hy, hback, -, -⟩ := hconversions _ _ _ celsius fahrenheit celsius hcelsius
    hfahrenheit hcelsius rfl rfl 25
  obtain rfl : y = 77 := Except.ok.inj (hy.symm.trans hthere)
  exact ⟨scaled_temperatures, celsius, fahrenheit, hcelsius, hfahrenheit, rfl, hthere, hback⟩

end UnitCalc
