import Mathlib.Tactic.Ring
import UnitCalc.Number.Shortest
import UnitCalc.Proofs.Token.Numeral

namespace UnitCalc.Number

open Float.Model Float.Model.UnpackedFloat

theorem mantissaBits_binary64 : Format.binary64.mantissaBits = 53 := by decide

theorem mantissaBitsWithoutImplicit_binary64 :
    Format.binary64.mantissaBitsWithoutImplicit = 52 := rfl

theorem exponentBias_binary64 : Format.binary64.exponentBias = 1023 := by decide

theorem minExponent_binary64 : Format.binary64.minExponent = -1074 := by decide

-- A mantissa of all the bits that there are.
def IsFull (m : Nat) : Prop :=
  2 ^ 52 ≤ m ∧ m < 2 ^ 53

theorem IsFull.log2_mul {m : Nat} (h : IsFull m) (k : Nat) : (m * 2 ^ k).log2 = 52 + k := by
  have hpow : 0 < 2 ^ k := Nat.two_pow_pos k
  have hne : m * 2 ^ k ≠ 0 := Nat.mul_ne_zero (by have := h.1; omega) (by omega)
  rw [Nat.log2_eq_iff hne, Nat.pow_add, Nat.add_right_comm, Nat.pow_add]
  exact ⟨Nat.mul_le_mul_right _ h.1, Nat.mul_lt_mul_of_pos_right h.2 hpow⟩

theorem IsFull.pos {m : Nat} (h : IsFull m) : 0 < m :=
  Nat.lt_of_lt_of_le (by decide) h.1

-- Shifting out zeros loses nothing.
theorem shiftRight_mul (m k : Nat) :
    (⟨m * 2 ^ k, false, false⟩ : ExtendedMantissa) >>> k = ⟨m, false, false⟩ := by
  change Nat.repeat ExtendedMantissa.shiftRightOne k _ = _
  induction k generalizing m with
  | zero => simp [Nat.repeat]
  | succ k ih =>
      have hsplit : m * 2 ^ (k + 1) = m * 2 * 2 ^ k := by ring
      rw [Nat.repeat, hsplit, ih]
      simp [ExtendedMantissa.shiftRightOne]

theorem shiftToTargetExponent_mul {m : Nat} {e : Int} (h : IsFull m) (k : Nat)
    (he : -1074 ≤ e + k) :
    shiftToTargetExponent .binary64 (m * 2 ^ k) e .exact = (⟨m, false, false⟩, e + k) := by
  have htarget : Format.binary64.targetExponent (totalExponent (m * 2 ^ k) e) = e + k := by
    rw [Format.targetExponent, totalExponent, h.log2_mul, minExponent_binary64,
      mantissaBits_binary64]
    omega
  have hshift : (e + k - e).toNat = k := by omega
  rw [shiftToTargetExponent, htarget]
  simp only [shiftToExponent, hshift, ExtendedMantissa.ofMantissaAndAccuracy, shiftRight_mul]

theorem roundWithAccuracy_eq {spec : Format} {s : Sign} {m : Nat} {e e₁ e₂ : Int} {a : Accuracy}
    {em₁ em₂ : ExtendedMantissa} (hfirst : shiftToTargetExponent spec m e a = (em₁, e₁))
    (hsecond : shiftToTargetExponent spec em₁.roundedMantissa e₁ .exact = (em₂, e₂))
    (hpos : 0 < em₂.mantissa) :
    roundWithAccuracy spec s m e a = .finite s em₂.mantissa e₂ hpos := by
  rw [roundWithAccuracy, hfirst]
  dsimp only
  rw [hsecond]
  exact dif_neg (Nat.pos_iff_ne_zero.mp hpos)

-- Rounding does nothing to a mantissa that is full after the zeros at its end.
theorem roundWithAccuracy_mul {m : Nat} {e : Int} (s : Sign) (h : IsFull m) (k : Nat)
    (he : -1074 ≤ e + k) :
    roundWithAccuracy .binary64 s (m * 2 ^ k) e .exact = .finite s m (e + k) h.pos := by
  have hagain := shiftToTargetExponent_mul h 0 (e := e + k) (by omega)
  rw [Nat.pow_zero, Nat.mul_one, Int.natCast_zero, Int.add_zero] at hagain
  exact roundWithAccuracy_eq (shiftToTargetExponent_mul h k he) hagain h.pos

theorem unpackSign_packComponents {spec : Format} (s : Sign) (e : BitVec spec.exponentBits)
    (m : BitVec spec.mantissaBitsWithoutImplicit) :
    unpackSign (packComponents spec s e m) = s.toBitVec := by
  apply BitVec.eq_of_getLsbD_eq
  intro i hi
  obtain rfl : i = 0 := by omega
  change (BitVec.cast _ (BitVec.extractLsb _ _ (s.toBitVec ++ e ++ m))).getLsbD 0 = _
  simp [BitVec.getLsbD_append, BitVec.getElem_append]

theorem ofBitVec_toBitVec (s : Sign) : Sign.ofBitVec s.toBitVec = s := by
  cases s <;> rfl

-- The first bit of a full mantissa is left out when it is packed.
theorem IsFull.toNat_append {m : Nat} (h : IsFull m) : (1#1 ++ BitVec.ofNat 52 m).toNat = m := by
  have hlow : (BitVec.ofNat 52 m).toNat = m - 2 ^ 52 := by
    rw [BitVec.toNat_ofNat]
    have hlo := h.1
    have hhi := h.2
    omega
  have hlt := (BitVec.ofNat 52 m).isLt
  rw [BitVec.toNat_append, ← Nat.shiftLeft_add_eq_or_of_lt hlt, hlow]
  have hlo := h.1
  simp only [BitVec.toNat_ofNat, Nat.shiftLeft_eq]
  omega

theorem finite_congr {s s' : Sign} {m m' : Nat} {e e' : Int} {h : 0 < m} {h' : 0 < m'}
    (hs : s = s') (hm : m = m') (he : e = e') : finite s m e h = finite s' m' e' h' := by
  subst hs hm he
  rfl

-- Unless its exponent is the largest or the smallest, a number has the bit that is left out.
theorem exists_unpack_eq {spec : Format} {b : BitVec spec.numBits}
    (hones : unpackExponent b ≠ -BitVec.ofNat _ 1) (hzero : unpackExponent b ≠ BitVec.ofNat _ 0) :
    ∃ hpos, UnpackedFloat.unpack spec b =
      .finite (.ofBitVec (unpackSign b)) (1#1 ++ unpackMantissa b).toNat
        ((unpackExponent b).toNat - (spec.exponentBias + spec.mantissaBitsWithoutImplicit)) hpos :=
  ⟨_, (if_neg hones).trans (if_neg hzero)⟩

-- A number with a full mantissa is packed as it is, with its exponent counted from the smallest on.
theorem pack_of_isFull {m b : Nat} (s : Sign) (h : IsFull m) (hb : b + 1 < 2 ^ 11) :
    UnpackedFloat.pack .binary64 (.finite s m (b - 1075) h.pos) =
      packComponents .binary64 s (BitVec.ofNat 11 b) (BitVec.ofNat 52 m) := by
  have hbits : m.log2 + 1 = Format.binary64.mantissaBits := by
    rw [mantissaBits_binary64]
    simpa using h.log2_mul 0
  have hbiased : ((b : Int) - 1075 + Format.binary64.exponentBias +
      Format.binary64.mantissaBitsWithoutImplicit).toNat = b := by
    rw [exponentBias_binary64, mantissaBitsWithoutImplicit_binary64]
    omega
  change (if 2 ^ Format.binary64.exponentBits ≤ ((b : Int) - 1075 +
      Format.binary64.exponentBias + Format.binary64.mantissaBitsWithoutImplicit).toNat + 1
    then _ else if m.log2 + 1 = Format.binary64.mantissaBits then _ else _) = _
  rw [hbiased, if_neg (Nat.not_le.mpr hb), if_pos hbits]

-- A number with a full mantissa is kept whole, unless its exponent is too small or too large.
theorem unpack_pack {m : Nat} {e : Int} (s : Sign) (h : IsFull m) (hlow : -1074 ≤ e)
    (hhigh : e ≤ 971) :
    (Float.Model.pack (.finite s m e h.pos)).unpack = .finite s m e h.pos := by
  obtain ⟨b, rfl⟩ : ∃ b : Nat, e = b - 1075 := ⟨(e + 1075).toNat, by omega⟩
  have hb : (BitVec.ofNat 11 b).toNat = b := by
    rw [BitVec.toNat_ofNat]
    omega
  have hzero : BitVec.ofNat 11 b ≠ 0#11 := by
    intro heq
    have hnat := congrArg BitVec.toNat heq
    rw [hb, BitVec.toNat_ofNat] at hnat
    omega
  have hones : BitVec.ofNat 11 b ≠ -1#11 := by
    intro heq
    have hnat := congrArg BitVec.toNat heq
    have hmax : (-1#11).toNat = 2047 := by decide
    rw [hb, hmax] at hnat
    omega
  obtain ⟨_, hunpack⟩ := exists_unpack_eq
    (b := packComponents .binary64 s (BitVec.ofNat 11 b) (BitVec.ofNat 52 m))
    (by rwa [unpackExponent_packComponents]) (by rwa [unpackExponent_packComponents])
  change UnpackedFloat.unpack .binary64 (UnpackedFloat.pack .binary64 _) = _
  rw [pack_of_isFull s h (by omega), hunpack]
  refine finite_congr ?_ ?_ ?_
  · rw [unpackSign_packComponents, ofBitVec_toBitVec]
  · rw [unpackMantissa_packComponents]
    exact h.toNat_append
  · rw [unpackExponent_packComponents, hb, exponentBias_binary64,
      mantissaBitsWithoutImplicit_binary64]
    rfl

-- An integer of up to 53 bits, with its mantissa made full.
theorem isFull_shiftLeft {n : Nat} (hpos : 0 < n) (h : n < 2 ^ 53) :
    IsFull (n * 2 ^ (52 - n.log2)) := by
  have hne : n ≠ 0 := Nat.pos_iff_ne_zero.mp hpos
  have hle : n.log2 ≤ 52 := Nat.lt_succ_iff.mp ((Nat.log2_lt hne).mpr h)
  have hlow := Nat.mul_le_mul_right (2 ^ (52 - n.log2)) (Nat.log2_self_le hne)
  have hhigh := Nat.mul_lt_mul_of_pos_right (Nat.lt_log2_self (n := n))
    (Nat.two_pow_pos (52 - n.log2))
  rw [← Nat.pow_add, Nat.add_sub_cancel' hle] at hlow
  rw [← Nat.pow_add, Nat.add_right_comm, Nat.add_sub_cancel' hle] at hhigh
  exact ⟨hlow, hhigh⟩

-- What an integer is as a floating-point number.
theorem unpack_toFloat {n : Nat} (hpos : 0 < n) (h : n < 2 ^ 53) :
    n.toUInt64.toFloat.toModel.unpack =
      .finite .positive (n * 2 ^ (52 - n.log2)) (-(52 - n.log2 : Nat))
        (isFull_shiftLeft hpos h).pos := by
  have hfull := isFull_shiftLeft hpos h
  have hne : n ≠ 0 := Nat.pos_iff_ne_zero.mp hpos
  have hle : n.log2 ≤ 52 := Nat.lt_succ_iff.mp ((Nat.log2_lt hne).mpr h)
  have hn : n.toUInt64.toNat = n := by
    rw [Nat.toUInt64, UInt64.toNat_ofNat']
    omega
  have htarget : Format.binary64.targetExponent (totalExponent n 0) = -(52 - n.log2 : Nat) := by
    rw [Format.targetExponent, totalExponent, minExponent_binary64, mantissaBits_binary64]
    omega
  have hround : UnpackedFloat.ofUInt64 .binary64 n.toUInt64 =
      .finite .positive (n * 2 ^ (52 - n.log2)) (-(52 - n.log2 : Nat)) hfull.pos := by
    have hcompare : compare (n : Int) 0 = .gt := compare_gt_iff_gt.mpr (by omega)
    have hshift : (0 - -((52 - n.log2 : Nat) : Int)).toNat = 52 - n.log2 := by omega
    have hdecrease : decreaseExponent n 0 (-((52 - n.log2 : Nat) : Int)) =
        (n * 2 ^ (52 - n.log2) * 2 ^ 0, -((52 - n.log2 : Nat) : Int)) := by
      simp only [decreaseExponent, hshift, Nat.shiftLeft_eq, Nat.pow_zero, Nat.mul_one]
      rw [Int.zero_sub]
    rw [UnpackedFloat.ofUInt64, hn, UnpackedFloat.ofNat, UnpackedFloat.ofInt,
      UnpackedFloat.normalize, hcompare]
    dsimp only
    rw [Int.toNat_natCast, UnpackedFloat.round, htarget, hdecrease]
    exact (roundWithAccuracy_mul .positive hfull 0 (by omega)).trans
      (finite_congr rfl rfl (Int.add_zero _))
  change (Float.Model.pack (UnpackedFloat.ofUInt64 .binary64 n.toUInt64)).unpack = _
  rw [hround, unpack_pack _ hfull (by omega) (by omega)]

theorem unpack_one :
    (Float.ofBits 4607182418800017408).toModel.unpack =
      .finite .positive (2 ^ 52) (-52) (by decide) :=
  rfl

-- Times one, a number with a full mantissa stays as it is.
theorem unpack_mul_one {x : Float} {s : Sign} {m : Nat} {e : Int} (h : IsFull m)
    (hlow : -1074 ≤ e) (hhigh : e ≤ 971) (hx : x.toModel.unpack = .finite s m e h.pos) :
    (x * Float.ofBits 4607182418800017408).toModel.unpack = .finite s m e h.pos := by
  have hexact := roundWithAccuracy_mul (e := e + -52) s h 52 (by omega)
  have hsign : s * .positive = s := by cases s <;> rfl
  have hmul : UnpackedFloat.mul .binary64 (.finite s m e h.pos)
      (.finite .positive (2 ^ 52) (-52) (by decide)) = .finite s m e h.pos := by
    change roundWithAccuracy .binary64 (s * .positive) (m * 2 ^ 52) (e + -52) .exact = _
    rw [hsign]
    exact hexact.trans (finite_congr rfl rfl (by omega))
  change (Float.Model.pack (UnpackedFloat.mul .binary64 x.toModel.unpack _)).unpack = _
  rw [hx, unpack_one, hmul, unpack_pack s h hlow hhigh]

theorem unpack_neg {x : Float} {s : Sign} {m : Nat} {e : Int} (h : IsFull m)
    (hlow : -1074 ≤ e) (hhigh : e ≤ 971) (hx : x.toModel.unpack = .finite s m e h.pos) :
    (-x).toModel.unpack = .finite (-s) m e h.pos := by
  change (Float.Model.pack x.toModel.unpack.neg).unpack = _
  rw [hx]
  exact unpack_pack (-s) h hlow hhigh

theorem toInt?_of_unpack {x : Float} {s : Sign} {n k : Nat} {h : 0 < n * 2 ^ k}
    (hx : x.toModel.unpack = .finite s (n * 2 ^ k) (-(k : Int)) h) :
    toInt? x = some (match s with
      | .negative => -(n : Int)
      | .positive => n) := by
  have hpow : 0 < 2 ^ k := Nat.two_pow_pos k
  have hden : Nat.pow 2 (- -(k : Int)).toNat = 2 ^ k := by simp
  have hone : Nat.pow 2 (-(k : Int)).toNat = 1 := by simp
  rw [toInt?]
  -- Of the cases only that of a finite number is left.
  split <;> rename_i hcase <;> cases hx.symm.trans hcase
  dsimp only
  rw [hden, hone, if_pos (Nat.mul_mod_left _ _), Nat.mul_div_cancel _ hpow, Nat.mul_one]
  cases s <;> rfl

-- The decimal text of an integer of up to 53 bits reads as that integer.
theorem toInt?_ofScientific {n : Nat} (h : n < 2 ^ 53) :
    toInt? (Float.ofScientific n false 0) = some (n : Int) ∧
      toInt? (-Float.ofScientific n false 0) = some (-(n : Int)) := by
  rcases Nat.eq_zero_or_pos n with rfl | hpos
  · decide +kernel
  · have hfull := isFull_shiftLeft hpos h
    have hle : n.log2 ≤ 52 := Nat.lt_succ_iff.mp ((Nat.log2_lt (by omega)).mpr h)
    have hscientific : Float.ofScientific n false 0 =
        n.toUInt64.toFloat * Float.ofBits 4607182418800017408 := by
      rw [Float.ofScientific, dif_pos ⟨h, by decide⟩]
      rfl
    have hunpack := unpack_mul_one hfull (by omega) (by omega) (unpack_toFloat hpos h)
    rw [← hscientific] at hunpack
    exact ⟨toInt?_of_unpack hunpack,
      toInt?_of_unpack (unpack_neg hfull (by omega) (by omega) hunpack)⟩

theorem readDecimal?_of_digits {ds : List Char} (hne : ds ≠ []) (h : AllDigits ds) :
    readDecimal? false ds = some ⟨false, ofDigits ds, 0⟩ := by
  have hnil : ∀ c ∈ ([] : List Char).head?, c.isDigit = false := nofun
  have htake := (takeWhile_isDigit_append h hnil).1
  rw [List.append_nil] at htake
  simp [readDecimal?, htake, hne, readExponent?]

theorem exists_read?_repr {n : Nat} (h : n < 2 ^ 53) :
    ∃ v, read? n.repr = some v ∧ toInt? v = some (n : Int) ∧ toInt? (-v) = some (-(n : Int)) := by
  have hdigits : AllDigits (Nat.toDigits 10 n) := fun c hc =>
    Nat.isDigit_of_mem_toDigits (by decide) (by decide) hc
  have hform : Form (Nat.toDigits 10 n) := by
    simpa using Form.whole Nat.toDigits_ne_nil hdigits .absent
  have hvalue : ofDigits (Nat.toDigits 10 n) = n :=
    Nat.ofDigitChars_toDigits (by decide) (by decide)
  refine ⟨Float.ofScientific n false 0, ?_, toInt?_ofScientific h⟩
  rw [Nat.repr, read?_of_form hform, readDecimal?_of_digits Nat.toDigits_ne_nil hdigits, hvalue]
  rfl

end UnitCalc.Number
