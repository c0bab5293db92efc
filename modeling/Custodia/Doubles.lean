import Mathlib.Data.Int.Log
import Mathlib.Data.Rat.Floor
import Mathlib.Tactic.Linarith
import Mathlib.Tactic.NormNum
import Mathlib.Tactic.Positivity
import Mathlib.Tactic.Ring

/-! # Doubles — rounding to double precision

    The numbers of double precision are the integers of 53 bits, times the
    powers of two from `2 ^ (-1074)` on. An operation on them is carried out
    exactly, and its result is rounded to the nearest one; between two that are
    equally near, to the one with an even last bit. Overflow is left out: what
    is rounded here is no larger than the largest of these numbers.

    * `round`: the rounding;
    * `round_of_isDouble`: what needs none;
    * `le_round`: rounding does not fall below a number with the same last bit;
    * `lt_round_sub`: a difference that is rounded stays beyond a small bound. -/

namespace Doubles

/-- The nearest integer; between two, the even one. -/
def roundEven (q : ℚ) : ℤ :=
  if q - ⌊q⌋ < 1 / 2 then ⌊q⌋
  else if 1 / 2 < q - ⌊q⌋ then ⌊q⌋ + 1
  else if ⌊q⌋ % 2 = 0 then ⌊q⌋
  else ⌊q⌋ + 1

/-- The exponent of the last bit of 53, or the least one there is. -/
def lastExponent (q : ℚ) : ℤ := max (Int.log 2 |q| - 52) (-1074)

/-- The last bit. -/
def ulp (q : ℚ) : ℚ := 2 ^ lastExponent q

/-- The nearest number of double precision. -/
def round (q : ℚ) : ℚ := roundEven (q / ulp q) * ulp q

/-- A number of double precision. -/
def IsDouble (q : ℚ) : Prop := ∃ m e : ℤ, |m| < 2 ^ 53 ∧ -1074 ≤ e ∧ q = m * 2 ^ e

/-! ## The nearest integer -/

/-- An integer is rounded to itself. -/
@[simp] theorem roundEven_intCast (n : ℤ) : roundEven n = n := by
  rw [roundEven, Int.floor_intCast, sub_self, if_pos (by norm_num)]

/-- Rounding goes no further down than the next integer. -/
theorem floor_le_roundEven (q : ℚ) : ⌊q⌋ ≤ roundEven q := by
  unfold roundEven
  split_ifs <;> omega

/-- The nearest integer is not below an integer that is not above. -/
theorem le_roundEven {n : ℤ} {q : ℚ} (h : (n : ℚ) ≤ q) : n ≤ roundEven q :=
  (Int.le_floor.mpr h).trans (floor_le_roundEven q)

/-! ## Rounding -/

/-- There is always some distance to the next number. -/
theorem ulp_pos (q : ℚ) : 0 < ulp q := zpow_pos (by norm_num) _

/-- A multiple of its own last bit is not changed. -/
theorem round_of_multiple {q : ℚ} {n : ℤ} (h : q = n * ulp q) : round q = q := by
  have hquot : q / ulp q = n := by
    rw [div_eq_iff (ulp_pos q).ne']
    exact h
  rw [round, hquot, roundEven_intCast]
  exact h.symm

/-- **Rounding does not fall below** a multiple of the last bit. -/
theorem le_round {d q : ℚ} {n : ℤ} (hd : d = n * ulp q) (h : d ≤ q) : d ≤ round q := by
  have hquot : (n : ℚ) ≤ q / ulp q := by
    rw [le_div_iff₀ (ulp_pos q), ← hd]
    exact h
  have hle : (n : ℚ) ≤ roundEven (q / ulp q) := Int.cast_le.mpr (le_roundEven hquot)
  rw [round, hd]
  exact mul_le_mul_of_nonneg_right hle (ulp_pos q).le

/-- The last bit of a number is no larger than the one it is written with. -/
theorem lastExponent_le {m e : ℤ} (hm : |m| < 2 ^ 53) (he : -1074 ≤ e) (hne : m ≠ 0) :
    lastExponent ((m : ℚ) * 2 ^ e) ≤ e := by
  have hpos : (0 : ℚ) < 2 ^ e := zpow_pos (by norm_num) e
  have habs : |(m : ℚ) * 2 ^ e| = |(m : ℚ)| * 2 ^ e := by
    rw [abs_mul, abs_of_pos hpos]
  have hlt : |(m : ℚ) * 2 ^ e| < (2 : ℕ) ^ (53 + e) := by
    have hbits : |(m : ℚ)| < 2 ^ 53 := by exact_mod_cast hm
    rw [habs, Nat.cast_ofNat, zpow_add₀ (by norm_num)]
    exact mul_lt_mul_of_pos_right (by exact_mod_cast hbits) hpos
  have hq : 0 < |(m : ℚ) * 2 ^ e| :=
    abs_pos.mpr (mul_ne_zero (Int.cast_ne_zero.mpr hne) hpos.ne')
  have hlog := (Int.lt_zpow_iff_log_lt (by norm_num) hq).mp hlt
  refine max_le ?_ he
  omega

/-- **A number of double precision needs no rounding.** -/
theorem round_of_isDouble {q : ℚ} (h : IsDouble q) : round q = q := by
  obtain ⟨m, e, hm, he, rfl⟩ := h
  by_cases hne : m = 0
  · subst hne
    refine round_of_multiple (n := 0) ?_
    rw [Int.cast_zero, zero_mul, zero_mul]
  · -- the last bit it is written with is a multiple of its own
    obtain ⟨k, hk⟩ := Int.eq_ofNat_of_zero_le (sub_nonneg.mpr (lastExponent_le hm he hne))
    refine round_of_multiple (n := m * 2 ^ k) ?_
    have hsplit : (2 : ℚ) ^ e = 2 ^ k * ulp ((m : ℚ) * 2 ^ e) := by
      rw [ulp, ← zpow_natCast, ← zpow_add₀ (by norm_num), ← hk, sub_add_cancel]
    rw [Int.cast_mul, Int.cast_pow, Int.cast_ofNat, mul_assoc, ← hsplit]

/-- Rounding does not fall below a power of two. -/
theorem zpow_le_round {q : ℚ} {k : ℤ} (hk : -1022 ≤ k) (h : 2 ^ k ≤ q) : 2 ^ k ≤ round q := by
  have hq : 0 < q := (zpow_pos (by norm_num) k).trans_le h
  have hlog : k ≤ Int.log 2 |q| := by
    rw [abs_of_pos hq]
    exact (Int.zpow_le_iff_le_log (by norm_num) hq).mp (by exact_mod_cast h)
  have hbit : lastExponent q = Int.log 2 |q| - 52 := max_eq_left (by omega)
  have hleading : (2 : ℚ) ^ Int.log 2 |q| = (2 ^ 52 : ℤ) * ulp q := by
    rw [ulp, hbit, Int.cast_pow, Int.cast_ofNat, ← zpow_natCast, ← zpow_add₀ (by norm_num)]
    congr 1
    omega
  have hle : (2 : ℚ) ^ Int.log 2 |q| ≤ q := by
    have hself := Int.zpow_log_le_self (b := 2) (by norm_num) hq
    rw [abs_of_pos hq]
    exact_mod_cast hself
  exact (zpow_le_zpow_right₀ (by norm_num) hlog).trans (le_round hleading hle)

/-! ## Differences -/

/-- A multiple of eight is a multiple of each smaller power of two. -/
theorem exists_multiple {e : ℤ} (he : e ≤ 3) (k : ℤ) : ∃ c : ℤ, ((8 * k : ℤ) : ℚ) = c * 2 ^ e := by
  obtain ⟨j, hj⟩ := Int.eq_ofNat_of_zero_le (sub_nonneg.mpr he)
  refine ⟨k * 2 ^ j, ?_⟩
  have height : (2 : ℚ) ^ j * 2 ^ e = 8 := by
    rw [← zpow_natCast, ← zpow_add₀ (by norm_num), ← hj, sub_add_cancel]
    norm_num
  have hsplit : ((k * 2 ^ j : ℤ) : ℚ) = k * 2 ^ j := by push_cast; ring
  rw [hsplit, mul_assoc, height, Int.cast_mul, mul_comm]
  norm_num

/-- Where the last bit is no more than eight, a difference to a multiple of eight
    needs no more bits than the number: it is the smaller one. -/
theorem isDouble_sub {m e k : ℤ} (hm : |m| < 2 ^ 53) (he : -1074 ≤ e) (hlow : e ≤ 3)
    (hk : 0 ≤ k) (hrest : 0 < (m : ℚ) * 2 ^ e - (8 * k : ℤ)) :
    IsDouble ((m : ℚ) * 2 ^ e - (8 * k : ℤ)) := by
  obtain ⟨c, hc⟩ := exists_multiple hlow k
  have hpos : (0 : ℚ) < 2 ^ e := zpow_pos (by norm_num) e
  rw [hc, ← sub_mul] at hrest
  have hc' : (0 : ℚ) ≤ c := by
    have hk' : (0 : ℚ) ≤ (8 * k : ℤ) := Int.cast_nonneg (by omega)
    rw [hc] at hk'
    exact nonneg_of_mul_nonneg_left hk' hpos
  have hdiff : (0 : ℚ) < m - c := pos_of_mul_pos_left hrest hpos.le
  have hc'' : 0 ≤ c := Int.cast_nonneg_iff.mp hc'
  have hdiff' : 0 < m - c := by exact_mod_cast hdiff
  refine ⟨m - c, e, ?_, he, ?_⟩
  · rw [abs_of_pos hdiff']
    have hupper := (abs_lt.mp hm).2
    omega
  · rw [hc, ← sub_mul, Int.cast_sub]

/-- Where the last bit is more than eight, the difference is itself a multiple of
    eight. -/
theorem sub_eq_multiple {m e : ℤ} (hhigh : 3 < e) (k : ℤ) :
    ∃ c : ℤ, (m : ℚ) * 2 ^ e - (8 * k : ℤ) = c * 2 ^ (3 : ℤ) := by
  obtain ⟨j, hj⟩ := Int.eq_ofNat_of_zero_le (show 0 ≤ e - 3 by omega)
  refine ⟨m * 2 ^ j - k, ?_⟩
  rw [show e = (j : ℤ) + 3 by omega, zpow_add₀ (by norm_num), zpow_natCast]
  push_cast
  ring

/-- A multiple of eight is written with the bits there are, or is beyond all
    bounds that are small. -/
theorem isDouble_or_le {c : ℤ} (hc : 0 < (c : ℚ) * 2 ^ (3 : ℤ)) :
    IsDouble ((c : ℚ) * 2 ^ (3 : ℤ)) ∨ (2 : ℚ) ^ (56 : ℤ) ≤ c * 2 ^ (3 : ℤ) := by
  rcases lt_or_ge c (2 ^ 53) with hbits | hbits
  · have hpos : (0 : ℚ) < c := pos_of_mul_pos_left hc (by norm_num)
    refine Or.inl ⟨c, 3, ?_, by norm_num, rfl⟩
    rw [abs_of_pos (by exact_mod_cast hpos)]
    exact hbits
  · have hbits' : ((2 ^ 53 : ℤ) : ℚ) ≤ c := Int.cast_le.mpr hbits
    refine Or.inr ?_
    calc (2 : ℚ) ^ (56 : ℤ) = ((2 ^ 53 : ℤ) : ℚ) * 2 ^ (3 : ℤ) := by norm_num
      _ ≤ c * 2 ^ (3 : ℤ) := mul_le_mul_of_nonneg_right hbits' (by norm_num)

/-- **A rounded difference does not fall to a small bound**: where a number of
    double precision exceeds the sum of two integers, it still exceeds the one
    when the other is subtracted from it. -/
theorem lt_round_sub {q : ℚ} (hq : IsDouble q) {n k : ℤ} (hn : 0 ≤ n) (hsmall : n < 2 ^ 53)
    (hk : 0 ≤ k) (h : (n : ℚ) + (8 * k : ℤ) < q) : (n : ℚ) < round (q - (8 * k : ℤ)) := by
  have hrest : (n : ℚ) < q - (8 * k : ℤ) := by linarith
  have hpos : 0 < q - (8 * k : ℤ) := (Int.cast_nonneg hn).trans_lt hrest
  have hcases : IsDouble (q - (8 * k : ℤ)) ∨ (2 : ℚ) ^ (56 : ℤ) ≤ q - (8 * k : ℤ) := by
    obtain ⟨m, e, hm, he, rfl⟩ := hq
    rcases le_or_gt e 3 with hlow | hhigh
    · exact Or.inl (isDouble_sub hm he hlow hk hpos)
    · obtain ⟨c, hc⟩ := sub_eq_multiple (m := m) hhigh k
      rw [hc] at hpos ⊢
      exact isDouble_or_le hpos
  rcases hcases with hdouble | hlarge
  · rw [round_of_isDouble hdouble]
    exact hrest
  · have hsmall' : (n : ℚ) < 2 ^ 53 := by exact_mod_cast hsmall
    calc (n : ℚ) < 2 ^ 53 := hsmall'
      _ ≤ 2 ^ (56 : ℤ) := by norm_num
      _ ≤ _ := zpow_le_round (by norm_num) hlarge

end Doubles
