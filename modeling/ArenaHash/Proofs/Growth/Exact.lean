import ArenaHash.Growth.Basic
import Mathlib.Algebra.GroupWithZero.Nat

/-!
# Exact counts

Counts up to `2 ^ 24` have at most 24 significant bits, apart from zeros at the end, so they are
numbers of the format and neither conversion nor a product with one rounds them. At the default load
factor, that many buckets therefore carry exactly as many elements as there are buckets.
-/

namespace ArenaHash

theorem roundHalfEven_mul (q : Nat) {d : Nat} (hd : 0 < d) : roundHalfEven (q * d) d = q := by
  simp [roundHalfEven, Nat.mul_div_cancel q hd, hd]

namespace Binary32

variable {n : Nat}

theorem one_eq : one = 2 ^ 149 := Nat.one_shiftLeft 149

theorem overflow_eq : overflow = one * 2 ^ 128 := Nat.shiftLeft_eq one 128

theorem one_pos : 0 < one := one_eq ▸ Nat.two_pow_pos 149

/-- The bits that rounding would drop are zeros. -/
theorem shift_dvd (hn : n ≤ 2 ^ 24) (k : Nat) : 2 ^ ((n * 2 ^ k).log2 - 23) ∣ n * 2 ^ k := by
  rcases Nat.lt_or_eq_of_le hn with hlt | rfl
  · by_cases hzero : n * 2 ^ k = 0
    · exact hzero ▸ Nat.dvd_zero _
    · have hlog : (n * 2 ^ k).log2 < 24 + k := by
        rw [Nat.log2_lt hzero, Nat.pow_add]
        exact Nat.mul_lt_mul_of_pos_right hlt (Nat.two_pow_pos k)
      exact Nat.dvd_trans (Nat.pow_dvd_pow 2 (by omega)) (Nat.dvd_mul_left _ _)
  · rw [← Nat.pow_add, Nat.log2_two_pow]
    exact Nat.pow_dvd_pow 2 (by omega)

theorem roundUnits_mul (hn : n ≤ 2 ^ 24) (k : Nat) {den : Nat} (hden : 0 < den) :
    roundUnits (n * 2 ^ k * den) den = n * 2 ^ k := by
  obtain ⟨q, hq⟩ := shift_dvd hn k
  generalize hshift : (n * 2 ^ k).log2 - 23 = shift at hq
  have hsplit : n * 2 ^ k * den = q * (den <<< shift) := by
    rw [hq, Nat.shiftLeft_eq, Nat.mul_comm _ q, Nat.mul_assoc, Nat.mul_comm den]
  have hpos : 0 < den <<< shift := by
    rw [Nat.shiftLeft_eq]
    exact Nat.mul_pos hden (Nat.two_pow_pos shift)
  unfold roundUnits
  simp only [Nat.mul_div_cancel _ hden, hshift]
  rw [hsplit, roundHalfEven_mul q hpos, hq, Nat.shiftLeft_eq, Nat.mul_comm]

theorem ofRatio_two_pow (hn : n ≤ 2 ^ 24) {k : Nat} (hlt : n * 2 ^ k < overflow) {den : Nat}
    (hden : 0 < den) : ofRatio false (n * 2 ^ k * den) den = finite false (n * 2 ^ k) := by
  unfold ofRatio
  simp only [roundUnits_mul hn k hden, if_pos hlt]

theorem ofRatio_mul (hn : n ≤ 2 ^ 24) {den : Nat} (hden : 0 < den) :
    ofRatio false (n * one * den) den = finite false (n * one) := by
  have hlt : n * one < overflow := by
    rw [overflow_eq, Nat.mul_comm]
    refine Nat.mul_lt_mul_of_pos_left (Nat.lt_of_le_of_lt hn ?_) one_pos
    exact Nat.pow_lt_pow_right (by omega) (by omega)
  rw [one_eq] at hlt ⊢
  exact ofRatio_two_pow hn hlt hden

theorem ofNat_eq (hn : n ≤ 2 ^ 24) : ofNat n = finite false (n * one) := by
  have h := ofRatio_mul hn Nat.one_pos
  rwa [Nat.mul_one] at h

theorem ofNat_mul_one (hn : n ≤ 2 ^ 24) : ofNat n * ofNat 1 = finite false (n * one) := by
  rw [ofNat_eq hn, ofNat_eq (by decide), Nat.one_mul]
  exact ofRatio_mul hn one_pos

theorem truncate_units (hn : n ≤ maxWord) : (finite false (n * one)).truncate = n := by
  rw [truncate, Nat.mul_div_cancel n one_pos, Nat.min_eq_left hn]

end Binary32

/-- At the default load factor, buckets carry as many elements as there are buckets. -/
theorem Growth.limitFor_defaultLoad {count : Nat} (h : count ≤ 2 ^ 24) :
    limitFor defaultLoad count = count := by
  rw [limitFor, defaultLoad, Binary32.ofNat_mul_one h]
  exact Binary32.truncate_units (Nat.le_trans h (by decide))

end ArenaHash
