import Mathlib.Data.Nat.ModEq

/-!
Sums with an end-around carry, over words of values up to `m`: what goes over a word is added at its
low end, and so the sum is kept modulo `m`. The complement of a sum, added to what was summed, makes
a sum whose own complement is zero.
-/

namespace Vantablack.Lib

variable {m s : ℕ}

/-- One turn of carrying. -/
def endAround (m s : ℕ) : ℕ :=
  s % (m + 1) + s / (m + 1)

theorem endAround_modEq (m s : ℕ) : endAround m s ≡ s [MOD m] := by
  have hone : m + 1 ≡ 1 [MOD m] := by simp [Nat.ModEq]
  calc endAround m s = s % (m + 1) + 1 * (s / (m + 1)) := by rw [endAround, one_mul]
    _ ≡ s % (m + 1) + (m + 1) * (s / (m + 1)) [MOD m] :=
      Nat.ModEq.add_left _ (hone.symm.mul_right _)
    _ = s := Nat.mod_add_div s (m + 1)

theorem endAround_eq_zero_iff : endAround m s = 0 ↔ s = 0 := by
  constructor
  · intro h
    rw [endAround, Nat.add_eq_zero_iff] at h
    rw [← Nat.mod_add_div s (m + 1), h.1, h.2, mul_zero, Nat.add_zero]
  · rintro rfl
    simp [endAround]

theorem endAround_le_of_le_two_mul (h : s ≤ 2 * m) : endAround m s ≤ m := by
  rw [endAround]
  rcases Nat.lt_or_ge s (m + 1) with hone | hcarry
  · rw [Nat.mod_eq_of_lt hone, Nat.div_eq_of_lt hone]
    omega
  · have hquot : s / (m + 1) = 1 := Nat.div_eq_of_lt_le (by omega) (by omega)
    have hrem := Nat.mod_add_div s (m + 1)
    rw [hquot] at hrem ⊢
    omega

theorem endAround_endAround_le (h : s < (m + 1) ^ 2) : endAround m (endAround m s) ≤ m := by
  rw [sq] at h
  have hquot : s / (m + 1) < m + 1 := Nat.div_lt_of_lt_mul h
  have hrem : s % (m + 1) < m + 1 := Nat.mod_lt s (Nat.succ_pos m)
  apply endAround_le_of_le_two_mul
  rw [endAround]
  omega

/-- The sum of words that add up to `s`. -/
def onesSum (m s : ℕ) : ℕ :=
  endAround m (endAround m s)

theorem onesSum_modEq (m s : ℕ) : onesSum m s ≡ s [MOD m] :=
  (endAround_modEq m _).trans (endAround_modEq m s)

theorem onesSum_eq_zero_iff : onesSum m s = 0 ↔ s = 0 := by
  rw [onesSum, endAround_eq_zero_iff, endAround_eq_zero_iff]

theorem onesSum_le (h : s < (m + 1) ^ 2) : onesSum m s ≤ m :=
  endAround_endAround_le h

/-- What a checksum field is filled with. -/
def onesComplement (m s : ℕ) : ℕ :=
  m - onesSum m s

theorem onesComplement_le (m s : ℕ) : onesComplement m s ≤ m :=
  Nat.sub_le _ _

theorem onesComplement_eq_zero_iff (h : s < (m + 1) ^ 2) (hs : 0 < s) :
    onesComplement m s = 0 ↔ m ∣ s := by
  have hle := onesSum_le h
  have hpos : onesSum m s ≠ 0 := mt onesSum_eq_zero_iff.mp hs.ne'
  have hdvd : m ∣ onesSum m s ↔ m ∣ s := (onesSum_modEq m s).dvd_iff dvd_rfl
  rw [onesComplement, ← hdvd]
  constructor
  · intro hzero
    rw [show onesSum m s = m by omega]
  · intro hmul
    have hge := Nat.le_of_dvd (Nat.pos_of_ne_zero hpos) hmul
    omega

theorem dvd_add_onesComplement (h : s < (m + 1) ^ 2) : m ∣ s + onesComplement m s := by
  have hsum : onesSum m s + onesComplement m s = m := by
    have hle := onesSum_le h
    rw [onesComplement]
    omega
  have hmod : s + onesComplement m s ≡ m [MOD m] := by
    have hadd := (onesSum_modEq m s).symm.add_right (onesComplement m s)
    rwa [hsum] at hadd
  exact (hmod.dvd_iff dvd_rfl).mpr dvd_rfl

theorem onesComplement_add (hm : 0 < m) (h : s + onesComplement m s < (m + 1) ^ 2) :
    onesComplement m (s + onesComplement m s) = 0 := by
  have hs : s < (m + 1) ^ 2 := by omega
  have hpos : 0 < s + onesComplement m s := by
    rcases Nat.eq_zero_or_pos s with rfl | hpos
    · have hzero : onesSum m 0 = 0 := onesSum_eq_zero_iff.mpr rfl
      rw [onesComplement, hzero]
      omega
    · omega
  exact (onesComplement_eq_zero_iff h hpos).mpr (dvd_add_onesComplement hs)

end Vantablack.Lib
