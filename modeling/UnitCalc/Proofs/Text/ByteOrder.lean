import Mathlib.Data.String.Basic
import UnitCalc.Text.Utf8

namespace UnitCalc.Text

-- Whether the bytes of a text come before those of another, as in a dictionary.
def Precedes (a b : String) : Prop :=
  bytes a.toList < bytes b.toList

theorem toNat_ofNat_of_lt {n : Nat} (h : n < 256) : (UInt8.ofNat n).toNat = n := by
  rw [UInt8.toNat_ofNat', Nat.mod_eq_of_lt (by simpa using h)]

theorem ofNat_cons_lt_ofNat_cons {m n : Nat} (hm : m < 256) (hn : n < 256) {as bs : List UInt8} :
    UInt8.ofNat m :: as < UInt8.ofNat n :: bs ↔ m < n ∨ m = n ∧ as < bs := by
  rw [List.cons_lt_cons_iff, UInt8.lt_iff_toNat_lt, ← UInt8.toNat_inj, toNat_ofNat_of_lt hm,
    toNat_ofNat_of_lt hn]

-- The encodings of two characters differ in a byte that goes by their order.
theorem utf8EncodeChar_append_lt {c d : Char} (h : c < d) (as bs : List UInt8) :
    String.utf8EncodeChar c ++ as < String.utf8EncodeChar d ++ bs := by
  have hlt : c.val.toNat < d.val.toNat := UInt32.lt_iff_toNat_lt.mp h
  have hmax : d.val.toNat < 0x110000 := by
    rcases d.valid with hd | hd <;> omega
  -- Every byte after the first has six bits of the code point.
  have htwelve (k : Nat) : k / 4096 = k / 64 / 64 := by rw [Nat.div_div_eq_div_mul]
  have heighteen (k : Nat) : k / 262144 = k / 64 / 64 / 64 := by
    rw [Nat.div_div_eq_div_mul, Nat.div_div_eq_div_mul]
  simp only [String.utf8EncodeChar, htwelve, heighteen]
  generalize c.val.toNat = m at hlt ⊢
  generalize d.val.toNat = n at hlt hmax ⊢
  split_ifs <;> simp only [List.cons_append, List.nil_append]
  all_goals repeat rw [ofNat_cons_lt_ofNat_cons (by omega) (by omega)]
  all_goals omega

theorem bytes_lt_bytes {as bs : List Char} (h : as < bs) : bytes as < bytes bs := by
  induction h with
  | @nil c cs =>
      obtain ⟨b, rest, hb⟩ := List.exists_cons_of_ne_nil (String.utf8EncodeChar_ne_nil (c := c))
      simp [bytes, hb]
  | @cons c as bs h ih =>
      simp only [bytes, List.flatMap_cons] at ih ⊢
      exact List.append_left_lt ih
  | @rel c as d bs h =>
      simp only [bytes, List.flatMap_cons]
      exact utf8EncodeChar_append_lt h _ _

theorem precedes_of_compare {a b : String} (h : compare a b = .lt) : Precedes a b := by
  have hlt : a < b := by
    simpa [compare, String.compare, compareOfLessAndEq_eq_lt] using h
  exact bytes_lt_bytes (hlt)

end UnitCalc.Text
