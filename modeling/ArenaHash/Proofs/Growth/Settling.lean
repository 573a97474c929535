import ArenaHash.Proofs.Growth.Rounding
import Mathlib.Data.List.Chain
import Mathlib.Data.List.Perm.Subperm
import Mathlib.Algebra.Order.Field.Rat

/-!
# Growth settles

A growth plan asks for a prime larger than the present bucket count, and for no more once it has it:
neither for as many elements nor for fewer. The quotient that it compares with bucket counts is
rounded, but as a number of the format it stays at or below a larger count that is rounded; so the
prime, which is larger than what is left of the quotient without its fraction, is enough. Only the
last prime may be too small, and there the plan has nothing larger to ask for.

`g.course` is what becomes of a bucket count that follows the plan through one demand after the
other. It ascends through the primes.
-/

namespace ArenaHash

/-! ## Bucket counts -/

theorem bounds_of_mem_primes : ∀ p ∈ primes, 2 ≤ p ∧ p ≤ largestPrime := by decide +kernel

theorem primeAtLeast_le (n : Nat) : primeAtLeast n ≤ largestPrime :=
  (bounds_of_mem_primes _ (primeAtLeast_mem n)).2

/-- Before the last prime, the answer is large enough. -/
theorem le_primeAtLeast_of_ne {n : Nat} (h : primeAtLeast n ≠ largestPrime) :
    n ≤ primeAtLeast n := by
  unfold primeAtLeast at h ⊢
  cases hf : primes.find? (n ≤ ·) with
  | none =>
    rw [hf] at h
    exact absurd rfl h
  | some p => simpa using List.find?_some hf

/-- The rational number that a finite number is. -/
def Binary32.value? : Binary32 → Option ℚ
  | finite negative units => some ((if negative then -1 else 1) * (units / one))
  | _ => none

namespace Growth

open Binary32

variable {g g' : Growth} {count elements additional wanted grown : Nat}

theorem isPositive_defaultLoad : defaultLoad.isPositive = true := by decide +kernel

theorem isPositive_of_default (h : g.maxLoad = defaultLoad) : g.maxLoad.isPositive = true :=
  h ▸ isPositive_defaultLoad

theorem isPositive_fixedLoad : fixedLoad.isPositive = true := by decide +kernel

theorem isPositive_leastFactor : leastFactor.isPositive = true := by decide +kernel

/-- What an answer comes from. -/
theorem enlarged?_eq_some (h : g.enlarged? count wanted = some grown) :
    count < grown ∧
      grown = primeAtLeast (min (((Binary32.ofNat wanted / g.maxLoad).max
        (leastFactor * .ofNat count)).truncate + 1) maxWord) := by
  unfold enlarged? at h
  simp only at h
  split at h
  · split at h
    · next hlt =>
      cases h
      exact ⟨hlt, rfl⟩
    · cases h
  · cases h

theorem enlarged?_mem_primes (h : g.enlarged? count wanted = some grown) : grown ∈ primes :=
  (enlarged?_eq_some h).2 ▸ primeAtLeast_mem _

/-- The limit has no part in it. -/
theorem enlarged?_retarget (g : Growth) (n count wanted : Nat) :
    (g.retarget n).enlarged? count wanted = g.enlarged? count wanted := by
  rw [enlarged?, maxLoad_retarget]
  rfl

/-- An answer comes with a plan for it. -/
theorem advise_eq_some (h : g.advise count elements additional = (some grown, g')) :
    g.enlarged? count (elements + additional) = some grown ∧ g' = g.retarget grown := by
  unfold advise at h
  simp only at h
  split at h
  · cases h
  · obtain ⟨henlarged, hplan⟩ := Prod.ext_iff.mp h
    simp only at henlarged hplan
    rw [henlarged] at hplan
    exact ⟨henlarged, hplan.symm⟩

theorem advise_mem_primes (h : g.advise count elements additional = (some grown, g')) :
    grown ∈ primes :=
  enlarged?_mem_primes (advise_eq_some h).1

theorem lt_of_advise (h : g.advise count elements additional = (some grown, g')) :
    count < grown :=
  (enlarged?_eq_some (advise_eq_some h).1).1

/-! ## After growth -/

section

variable (hload : g.maxLoad.isPositive = true)
include hload

/-- The buckets that an element count comes to under the load factor. -/
theorem quotient_atMost {wanted' : Nat} (h : wanted' ≤ wanted) :
    AtMost (.ofNat wanted' / g.maxLoad) (.ofNat wanted / g.maxLoad) :=
  (AtMost.ofNat h).div_right hload

/-- Any answer but the last prime is larger than the quotient. -/
theorem quotient_lt (h : g.enlarged? count wanted = some grown) (hgrown : grown ≠ largestPrime) :
    ∃ u, Binary32.ofNat wanted / g.maxLoad = finite false u ∧ u < grown * one := by
  have hquotient := quotient_atMost hload (le_refl wanted)
  have hdoubled : AtMost (leastFactor * .ofNat count) (leastFactor * .ofNat count) := by
    rw [Binary32.mul_comm]
    exact (AtMost.ofNat (le_refl count)).mul_right isPositive_leastFactor
  have hfloor := (hquotient.le_max hdoubled).truncate
  have hanswer := (enlarged?_eq_some h).2
  have hlast : grown ≤ largestPrime := hanswer ▸ primeAtLeast_le _
  have hword : largestPrime < maxWord := by decide
  have hmin := le_primeAtLeast_of_ne (hanswer ▸ hgrown)
  rw [← hanswer] at hmin
  exact hquotient.lt_of_truncate (by omega) (by omega)

/-- Once there are as many buckets as asked for, no more are asked for. -/
theorem enlarged?_eq_none (h : g.enlarged? count wanted = some grown) {wanted' : Nat}
    (hle : wanted' ≤ wanted) : g.enlarged? grown wanted' = none := by
  by_cases hgrown : grown = largestPrime
  · -- There is no larger prime.
    unfold enlarged?
    simp only
    split
    · exact if_neg (hgrown ▸ Nat.not_lt.mpr (primeAtLeast_le _))
    · rfl
  · obtain ⟨u, hquotient, hu⟩ := quotient_lt hload h hgrown
    obtain ⟨num, den, hround⟩ := (AtMost.ofNat (le_refl wanted)).exists_ofRatio hload hquotient
    have hfits : AtMost (.ofNat wanted' / g.maxLoad) (.ofNat grown) := by
      refine (quotient_atMost hload hle).trans ?_
      rw [hquotient]
      exact atMost_ofNat_of_le hround hu.le
    unfold enlarged?
    simp only [hfits.not_lt]
    rfl

/-- Asked again for no more elements, the plan asks for nothing and stays as it is. -/
theorem advise_settled (h : g.advise count elements additional = (some grown, g'))
    {elements' additional' : Nat} (hle : elements' + additional' ≤ elements + additional) :
    g'.advise grown elements' additional' = (none, g') := by
  obtain ⟨henlarged, rfl⟩ := advise_eq_some h
  have hnone := enlarged?_eq_none hload henlarged hle
  unfold advise
  simp only
  split
  · rfl
  · rw [enlarged?_retarget, hnone, retarget_retarget]
    rfl

theorem exists_quotient_lt (h : g.enlarged? count wanted = some grown)
    (hgrown : grown ≠ largestPrime) :
    ∃ q, (Binary32.ofNat wanted / g.maxLoad).value? = some q ∧ q < grown := by
  obtain ⟨u, hquotient, hu⟩ := quotient_lt hload h hgrown
  have hone : (0 : ℚ) < one := by exact_mod_cast one_pos
  refine ⟨u / one, by rw [hquotient, value?]; simp, ?_⟩
  rw [div_lt_iff₀ hone]
  exact_mod_cast hu

end

/-- What comes of a plan that asks for `grown` buckets in place of `count`, for `wanted` elements.
-/
structure Settles (g : Growth) (count wanted grown : Nat) (g' : Growth) : Prop where
  larger : count < grown
  prime : grown ∈ primes
  /-- The limit is that of the new bucket count. -/
  plan : g' = g.retarget grown
  quotient : grown = largestPrime ∨
    ∃ q, (Binary32.ofNat wanted / g.maxLoad).value? = some q ∧ q < grown
  settled : ∀ elements additional, elements + additional ≤ wanted →
    g'.advise grown elements additional = (none, g')

theorem settles (hload : g.maxLoad.isPositive = true)
    (h : g.advise count elements additional = (some grown, g')) :
    g.Settles count (elements + additional) grown g' where
  larger := lt_of_advise h
  prime := advise_mem_primes h
  plan := (advise_eq_some h).2
  quotient := or_iff_not_imp_left.mpr (exists_quotient_lt hload (advise_eq_some h).1)
  settled _ _ hle := advise_settled hload h hle

/-! ## One demand after the other -/

/-- A plan is asked about so many elements more, and the array that it asks for is granted or not.
-/
structure Demand where
  elements : Nat
  additional : Nat
  granted : Bool

/-- The bucket counts that are granted when the plan is asked about one demand after the other. If
the array is refused, the plan goes back to the present bucket count. -/
def course (g : Growth) (count : Nat) : List Demand → List Nat
  | [] => []
  | demand :: demands =>
    match g.advise count demand.elements demand.additional with
    | (none, g') => g'.course count demands
    | (some grown, g') =>
      if demand.granted then grown :: g'.course grown demands
      else (g'.retarget count).course count demands

theorem isChain_course (g : Growth) (count : Nat) (demands : List Demand) :
    (count :: g.course count demands).IsChain (· < ·) := by
  induction demands generalizing g count with
  | nil => exact .singleton _
  | cons demand demands ih =>
    rw [course]
    split
    · exact ih _ _
    · next h =>
      split
      · exact .cons_cons (lt_of_advise h) (ih _ _)
      · exact ih _ _

theorem course_subset (g : Growth) (count : Nat) (demands : List Demand) :
    g.course count demands ⊆ primes := by
  induction demands generalizing g count with
  | nil => exact List.nil_subset _
  | cons demand demands ih =>
    rw [course]
    split
    · exact ih _ _
    · next h =>
      split
      · exact List.cons_subset.mpr ⟨advise_mem_primes h, ih _ _⟩
      · exact ih _ _

/-- An array grows no more often than there are primes. -/
theorem length_course_le (g : Growth) (count : Nat) (demands : List Demand) :
    (g.course count demands).length ≤ primes.length := by
  have hsorted := List.isChain_iff_pairwise.mp (g.isChain_course count demands)
  have hnodup : (g.course count demands).Nodup :=
    (List.pairwise_cons.mp hsorted).2.imp Nat.ne_of_lt
  exact (List.subperm_of_subset hnodup (g.course_subset count demands)).length_le

end Growth

end ArenaHash
