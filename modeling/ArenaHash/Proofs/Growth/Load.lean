import ArenaHash.Proofs.Growth.Settling
import Mathlib.Data.List.Chain
import Mathlib.Order.Bounds.Basic
import Mathlib.Tactic.Ring

/-!
# Growth at the default load factor

With one element for each bucket, a table of fewer than `2 ^ 24` buckets asks for more of them
exactly when all are taken, and then for the least of the primes above twice their number. Beyond
that load factors do not tell every count from the next one; up to `2 ^ 24` elements no table with
that many buckets asks for more.
-/

namespace ArenaHash

theorem pairwise_primes : primes.Pairwise (· < ·) :=
  List.isChain_iff_pairwise.mp (by decide +kernel)

/-- The answer is the least prime of the list that is large enough. -/
theorem isLeast_primeAtLeast {n : Nat} (h : n ≤ largestPrime) :
    IsLeast {p | p ∈ primes ∧ n ≤ p} (primeAtLeast n) := by
  refine ⟨⟨primeAtLeast_mem n, le_primeAtLeast h⟩, ?_⟩
  rintro p ⟨hp, hmin⟩
  obtain ⟨q, hq⟩ := Option.isSome_iff_exists.mp
    (List.find?_isSome (p := (n ≤ ·)).mpr ⟨p, hp, decide_eq_true hmin⟩)
  obtain ⟨-, before, after, hsplit, hbefore⟩ := List.find?_eq_some_iff_append.mp hq
  rw [primeAtLeast, hq, Option.getD_some]
  have hsorted := pairwise_primes
  rw [hsplit] at hp hsorted
  rcases List.mem_append.mp hp with hp | hp
  · have hsmall := hbefore p hp
    simp [hmin] at hsmall
  · rcases List.mem_cons.mp hp with rfl | hp
    · exact le_refl _
    · exact ((List.pairwise_cons.mp (List.pairwise_append.mp hsorted).2.1).1 p hp).le

/-- The primes above the counts that load factors represent exactly. -/
theorem le_of_large_prime : ∀ p ∈ primes, 2 ^ 24 < p → 17961079 ≤ p := by decide +kernel

/-- Twice a count needs no more bits. -/
theorem Binary32.ofNat_two_mul {n : Nat} (hn : n ≤ 2 ^ 24) :
    ofNat 2 * ofNat n = finite false (2 * n * one) := by
  have hunits : 2 * n * one = n * 2 ^ 150 := by
    rw [one_eq, Nat.mul_comm 2 n, Nat.mul_assoc, ← Nat.pow_succ']
  have hsmall : 2 * n * one < overflow := by
    rw [overflow_eq, Nat.mul_comm one]
    exact Nat.mul_lt_mul_of_pos_right (by omega) one_pos
  rw [hunits] at hsmall
  have hproduct : ∀ u, 2 * u * (n * u) = 2 * n * u * u := fun u => by ring
  rw [ofNat_eq (by decide), ofNat_eq hn, finite_mul, hproduct, hunits]
  exact ofRatio_two_pow hn hsmall one_pos

namespace Growth

open Binary32

variable {g : Growth} {count elements : Nat}

theorem limitFor_mono {maxLoad : Binary32} (hload : maxLoad.isPositive = true) {m n : Nat}
    (h : m ≤ n) : limitFor maxLoad m ≤ limitFor maxLoad n :=
  ((AtMost.ofNat h).mul_right hload).truncate

section

variable (hload : g.maxLoad = defaultLoad)
include hload

theorem enlarged?_full (h2 : 2 ≤ count) (hcount : count < 2 ^ 24) :
    g.enlarged? count (count + 1) = some (primeAtLeast (2 * count + 1)) := by
  have hload' : g.maxLoad = finite false one := by
    rw [hload, defaultLoad, ofNat_eq (by decide), Nat.one_mul]
  have hleast : Binary32.ofNat (count + 1) / g.maxLoad = finite false ((count + 1) * one) := by
    rw [hload', ofNat_eq hcount, finite_div _ Binary32.one_pos]
    exact ofRatio_mul hcount Binary32.one_pos
  have hdoubled : leastFactor * finite false (count * one) = finite false (2 * count * one) := by
    rw [← ofNat_eq hcount.le]
    exact ofNat_two_mul hcount.le
  have hlt : count * one < (count + 1) * one :=
    Nat.mul_lt_mul_of_pos_right (by omega) Binary32.one_pos
  have hmax : (count + 1) * one < 2 * count * one :=
    Nat.mul_lt_mul_of_pos_right (by omega) Binary32.one_pos
  have hword : 2 * count + 1 ≤ maxWord := by
    unfold maxWord
    omega
  have hgrown : count < primeAtLeast (2 * count + 1) := by
    have hle : 2 * count + 1 ≤ primeAtLeast (2 * count + 1) :=
      le_primeAtLeast (by unfold largestPrime; omega)
    omega
  unfold enlarged?
  simp only [hleast, hdoubled, ofNat_eq hcount.le, lt_of_units hlt, if_true, max_of_units hmax,
    truncate_units (show 2 * count ≤ maxWord by omega), Nat.min_eq_left hword, if_pos hgrown]

/-- Growth of a plan in step with its buckets. -/
theorem advise_defaultLoad (hlimit : g.limit = limitFor g.maxLoad count) (h2 : 2 ≤ count)
    (hcount : count ≤ 2 ^ 24) (helements : elements ≤ count) :
    (g.advise count elements 1).1 =
      if elements = count ∧ count < 2 ^ 24 then some (primeAtLeast (2 * count + 1)) else none := by
  rw [hload, limitFor_defaultLoad hcount] at hlimit
  unfold advise
  simp only [hlimit]
  split
  · next hle => rw [if_neg (by omega)]
  · next hlt =>
    have hfull : elements = count := by omega
    subst hfull
    rcases Nat.lt_or_eq_of_le hcount with hcount | heq
    · rw [if_pos ⟨rfl, hcount⟩]
      exact enlarged?_full hload h2 hcount
    · -- One more than `2 ^ 24` is rounded to `2 ^ 24`.
      have hrounded :
          Binary32.lt (.ofNat (2 ^ 24)) (.ofNat (2 ^ 24 + 1) / defaultLoad) = false := by
        decide +kernel
      rw [if_neg (by omega), enlarged?, heq, hload, hrounded]
      rfl

theorem advise_large (hlimit : g.limit = limitFor g.maxLoad count) (hprime : count ∈ primes)
    (hcount : 2 ^ 24 < count) (helements : elements ≤ 2 ^ 24) :
    (g.advise count elements 1).1 = none := by
  have hmono := limitFor_mono isPositive_defaultLoad (le_of_large_prime count hprime hcount)
  have hleast : 2 ^ 24 + 1 ≤ limitFor defaultLoad 17961079 := by decide +kernel
  unfold advise
  rw [if_pos]
  rw [hlimit, hload]
  omega

end

end Growth

end ArenaHash
