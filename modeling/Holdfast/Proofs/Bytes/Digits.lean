import Holdfast.Bytes
import Mathlib.Data.Nat.Digits.Lemmas

namespace Holdfast.Bytes

/-- The number whose digits are these bytes, the least significant first. -/
def number (bs : Bytes) : Nat := Nat.ofDigits 256 (bs.map UInt8.toNat)

@[simp] theorem number_nil : number [] = 0 := rfl

@[simp] theorem number_cons (b : UInt8) (bs : Bytes) :
    number (b :: bs) = b.toNat + 256 * number bs := by
  simp [number, Nat.ofDigits_cons]

theorem digit_lt (bs : Bytes) : ∀ d ∈ bs.map UInt8.toNat, d < 256 := by
  intro d hd
  obtain ⟨b, -, rfl⟩ := List.mem_map.mp hd
  exact b.toNat_lt

theorem number_lt (bs : Bytes) : number bs < 256 ^ bs.length := by
  have hlt := Nat.ofDigits_lt_base_pow_length (by decide) (digit_lt bs)
  simpa [number] using hlt

/-- As many bytes of one number are the same bytes. -/
theorem number_inj {bs cs : Bytes} (hlength : bs.length = cs.length)
    (h : number bs = number cs) : bs = cs := by
  have hdigits : bs.map UInt8.toNat = cs.map UInt8.toNat :=
    Nat.ofDigits_inj_of_len_eq (by decide) (by simpa using hlength) (digit_lt bs) (digit_lt cs) h
  exact List.map_injective_iff.mpr (fun b c => UInt8.toNat_inj.mp) hdigits

/-- The word of up to eight bytes is their number. -/
theorem toNat_littleEndian {bs : Bytes} (h : bs.length ≤ 8) :
    (littleEndian bs).toNat = number bs := by
  induction bs with
  | nil => rfl
  | cons b bs ih =>
    have hlength : bs.length ≤ 7 := Nat.le_of_succ_le_succ h
    have hrest : (littleEndian bs).toNat = number bs := ih (Nat.le_succ_of_le hlength)
    have hlt : number bs < 256 ^ 7 :=
      Nat.lt_of_lt_of_le (number_lt bs) (Nat.pow_le_pow_right (by decide) hlength)
    have hshift : (littleEndian bs <<< 8).toNat = 256 * number bs := by
      rw [UInt64.toNat_shiftLeft, hrest, Nat.shiftLeft_eq]
      simp
      omega
    have hsum : 256 * number bs + b.toNat = 256 * number bs ||| b.toNat :=
      Nat.two_pow_add_eq_or_of_lt b.toNat_lt (number bs)
    rw [littleEndian, UInt64.toNat_or, hshift, UInt8.toNat_toUInt64, Nat.or_comm, ← hsum,
      number_cons, Nat.add_comm]

theorem littleEndian_inj {bs cs : Bytes} (hlength : bs.length = cs.length) (hshort : bs.length ≤ 8)
    (h : littleEndian bs = littleEndian cs) : bs = cs := by
  apply number_inj hlength
  rw [← toNat_littleEndian hshort, ← toNat_littleEndian (hlength ▸ hshort), h]

/-- The value of bytes is their number when the most significant one comes first. -/
theorem value_eq_number (bs : Bytes) : value bs = number bs.reverse := by
  induction bs using List.reverseRecOn with
  | nil => rfl
  | append_singleton bs b ih =>
    rw [List.reverse_append, List.reverse_singleton, List.singleton_append, number_cons, ← ih]
    simp [value, Nat.mul_comm, Nat.add_comm]

theorem value_cons (b : UInt8) (bs : Bytes) :
    value (b :: bs) = b.toNat * 256 ^ bs.length + value bs := by
  have happend : number (bs.reverse ++ [b]) = number bs.reverse + 256 ^ bs.length * b.toNat := by
    simp [number, Nat.ofDigits_append]
  rw [value_eq_number, List.reverse_cons, happend, ← value_eq_number, Nat.mul_comm, Nat.add_comm]

theorem value_lt (bs : Bytes) : value bs < 256 ^ bs.length := by
  rw [value_eq_number, ← List.length_reverse]
  exact number_lt bs.reverse

theorem value_inj {bs cs : Bytes} (hlength : bs.length = cs.length) (h : value bs = value cs) :
    bs = cs := by
  rw [value_eq_number, value_eq_number] at h
  exact List.reverse_injective (number_inj (by simpa using hlength) h)

/-- Reading a number back gives it up to the width it was written with. -/
theorem value_bigEndian (width n : Nat) : value (bigEndian width n) = n % 256 ^ width := by
  induction width with
  | zero => simp [bigEndian, value, Nat.mod_one]
  | succ w ih =>
    rw [bigEndian, value_cons, ih, length_bigEndian]
    have hshift : n >>> (8 * w) = n / 256 ^ w := by
      rw [Nat.shiftRight_eq_div_pow, Nat.pow_mul]
    have hbyte : (UInt8.ofNat (n >>> (8 * w))).toNat = n / 256 ^ w % 256 := by
      rw [hshift]; simp
    rw [hbyte, Nat.pow_succ, Nat.mod_mul, Nat.mul_comm, Nat.add_comm]

/-- Bytes are what their value is written as, in that many bytes. -/
theorem bigEndian_value {bs : Bytes} {width : Nat} (h : bs.length = width) :
    bigEndian width (value bs) = bs := by
  apply value_inj (by rw [length_bigEndian, h])
  rw [value_bigEndian, ← h, Nat.mod_eq_of_lt (value_lt bs)]

end Holdfast.Bytes
