import ArenaHash.Proofs.Growth.Exact
import Mathlib.Data.Nat.Log

/-!
# Rounding keeps the order

A larger ratio is not rounded to a smaller number. Where two ratios are rounded to the same place
this is so for the nearest naturals; otherwise there is a power of two between them, and that is a
number of the format. So sums and limits of non-negative numbers can be compared before they are
rounded: `AtMost` is the order, and products, quotients and conversions follow it.
-/

namespace ArenaHash

section

variable {num num' den m : Nat}

theorem div_le_roundHalfEven (num den : Nat) : num / den ≤ roundHalfEven num den := by
  unfold roundHalfEven
  simp only
  split
  · exact le_refl _
  · split <;> omega

theorem roundHalfEven_le_succ (num den : Nat) : roundHalfEven num den ≤ num / den + 1 := by
  unfold roundHalfEven
  simp only
  split
  · omega
  · split <;> omega

theorem roundHalfEven_mono (h : num ≤ num') :
    roundHalfEven num den ≤ roundHalfEven num' den := by
  have hdiv : num / den ≤ num' / den := Nat.div_le_div_right h
  rcases Nat.lt_or_eq_of_le hdiv with hlt | heq
  · exact (roundHalfEven_le_succ num den).trans
      ((Nat.succ_le_of_lt hlt).trans (div_le_roundHalfEven num' den))
  · -- The whole parts agree, so the remainders are in order.
    have hmod : num % den ≤ num' % den := by
      have hnum := Nat.div_add_mod num den
      have hnum' := Nat.div_add_mod num' den
      rw [heq] at hnum
      omega
    unfold roundHalfEven
    grind

end

namespace Binary32

variable {num num' den : Nat}

/-- No number is rounded below the power of two under it. -/
theorem two_pow_log2_le_roundUnits (h : num / den ≠ 0) :
    2 ^ (num / den).log2 ≤ roundUnits num den := by
  unfold roundUnits
  simp only
  generalize hshift : (num / den).log2 - 23 = shift
  have hpow : 2 ^ (num / den).log2 = 2 ^ ((num / den).log2 - shift) * 2 ^ shift := by
    rw [← Nat.pow_add]
    congr 1
    omega
  have hquotient : 2 ^ ((num / den).log2 - shift) ≤ num / (den <<< shift) := by
    rw [Nat.shiftLeft_eq, ← Nat.div_div_eq_div_mul, Nat.le_div_iff_mul_le (Nat.two_pow_pos shift),
      ← hpow]
    exact Nat.log2_self_le h
  rw [hpow, Nat.shiftLeft_eq _ shift]
  exact Nat.mul_le_mul_right _ (hquotient.trans (div_le_roundHalfEven _ _))

/-- No number is rounded above the power of two over it. -/
theorem roundUnits_le_two_pow (hden : 0 < den) :
    roundUnits num den ≤ 2 ^ ((num / den).log2 + 1) := by
  unfold roundUnits
  simp only
  generalize hshift : (num / den).log2 - 23 = shift
  have hpow : 2 ^ ((num / den).log2 + 1) = 2 ^ ((num / den).log2 + 1 - shift) * 2 ^ shift := by
    rw [← Nat.pow_add]
    congr 1
    omega
  have hpos : 0 < den <<< shift := by
    rw [Nat.shiftLeft_eq]
    exact Nat.mul_pos hden (Nat.two_pow_pos shift)
  have hnum : num ≤ 2 ^ ((num / den).log2 + 1 - shift) * (den <<< shift) := by
    rw [Nat.shiftLeft_eq, Nat.mul_comm den, ← Nat.mul_assoc, ← hpow]
    exact ((Nat.div_lt_iff_lt_mul hden).mp Nat.lt_log2_self).le
  have hround : roundHalfEven num (den <<< shift) ≤
      roundHalfEven (2 ^ ((num / den).log2 + 1 - shift) * (den <<< shift)) (den <<< shift) :=
    roundHalfEven_mono hnum
  rw [roundHalfEven_mul _ hpos] at hround
  rw [hpow, Nat.shiftLeft_eq _ shift]
  exact Nat.mul_le_mul_right _ hround

/-- A rounded ratio has 24 significant bits. -/
theorem exists_roundUnits_eq (num den : Nat) :
    ∃ q k, q ≤ 2 ^ 24 ∧ roundUnits num den = q * 2 ^ k := by
  refine ⟨_, (num / den).log2 - 23, ?_, Nat.shiftLeft_eq _ _⟩
  generalize hshift : (num / den).log2 - 23 = shift
  refine (roundHalfEven_le_succ _ _).trans (Nat.succ_le_of_lt ?_)
  rw [Nat.shiftLeft_eq, ← Nat.div_div_eq_div_mul, Nat.div_lt_iff_lt_mul (Nat.two_pow_pos shift),
    ← Nat.pow_add]
  exact Nat.lt_log2_self.trans_le (Nat.pow_le_pow_right Nat.zero_lt_two (by omega))

theorem roundUnits_mono (hden : 0 < den) (h : num ≤ num') :
    roundUnits num den ≤ roundUnits num' den := by
  have hdiv : num / den ≤ num' / den := Nat.div_le_div_right h
  have hlog : (num / den).log2 ≤ (num' / den).log2 := by
    rw [Nat.log2_eq_log_two, Nat.log2_eq_log_two]
    exact Nat.log_mono_right hdiv
  rcases Nat.lt_or_eq_of_le hlog with hlt | heq
  · have hne : num' / den ≠ 0 := by
      intro hzero
      rw [hzero] at hlt
      exact absurd hlt (Nat.not_lt_zero _)
    calc roundUnits num den ≤ 2 ^ ((num / den).log2 + 1) := roundUnits_le_two_pow hden
      _ ≤ 2 ^ (num' / den).log2 := Nat.pow_le_pow_right Nat.zero_lt_two hlt
      _ ≤ roundUnits num' den := two_pow_log2_le_roundUnits hne
  · unfold roundUnits
    simp only [heq, Nat.shiftLeft_eq _ ((num' / den).log2 - 23)]
    rw [← Nat.shiftLeft_eq den]
    exact Nat.mul_le_mul_right _ (roundHalfEven_mono h)

/-- What was rounded is not rounded again. -/
theorem ofRatio_units {u : Nat} (h : ofRatio false num den = finite false u) :
    ofRatio false u 1 = finite false u := by
  unfold ofRatio at h
  simp only at h
  split at h
  · next hlt =>
    cases h
    obtain ⟨q, k, hq, hround⟩ := exists_roundUnits_eq num den
    rw [hround] at hlt ⊢
    have hfixed := ofRatio_two_pow hq hlt Nat.one_pos
    rwa [Nat.mul_one] at hfixed
  · cases h

/-! ## Numbers that are not negative -/

/-- The order of numbers that are not negative. -/
def AtMost : Binary32 → Binary32 → Prop
  | finite false a, finite false b => a ≤ b
  | finite false _, infinite false | infinite false, infinite false => True
  | _, _ => False

variable {a b c : Binary32}

theorem AtMost.trans (h : AtMost a b) (h' : AtMost b c) : AtMost a c := by
  unfold AtMost at *
  grind

/-- Numbers in the order. -/
theorem AtMost.eq_or_eq (h : AtMost a a) : (∃ x, a = finite false x) ∨ a = infinite false := by
  cases a with
  | nan => exact h.elim
  | infinite s =>
    cases s with
    | false => exact .inr rfl
    | true => exact h.elim
  | finite s x =>
    cases s with
    | false => exact .inl ⟨x, rfl⟩
    | true => exact h.elim

theorem AtMost.ofRatio (hden : 0 < den) (h : num ≤ num') :
    AtMost (ofRatio false num den) (ofRatio false num' den) := by
  have hmono := roundUnits_mono hden h
  unfold Binary32.ofRatio
  simp only
  split <;> split
  · exact hmono
  · trivial
  · omega
  · trivial

theorem atMost_infinite (num den : Nat) : AtMost (ofRatio false num den) (infinite false) := by
  unfold ofRatio
  simp only
  split <;> trivial

theorem AtMost.ofNat {m n : Nat} (h : m ≤ n) : AtMost (ofNat m) (ofNat n) :=
  .ofRatio Nat.one_pos (Nat.mul_le_mul_right one h)

theorem AtMost.truncate (h : AtMost a b) : a.truncate ≤ b.truncate := by
  unfold AtMost at h
  split at h
  · next x y =>
    have hdiv : x / one ≤ y / one := Nat.div_le_div_right h
    show min (x / one) maxWord ≤ min (y / one) maxWord
    omega
  · exact Nat.min_le_right _ _
  · exact le_refl _
  · exact h.elim

/-- What is cut off to less than a count that is a machine word is less than the count. -/
theorem AtMost.lt_of_truncate {n : Nat} (h : AtMost a a) (hn : n ≤ maxWord)
    (hlt : a.truncate < n) : ∃ u, a = finite false u ∧ u < n * one := by
  rcases h.eq_or_eq with ⟨u, rfl⟩ | rfl
  · refine ⟨u, rfl, ?_⟩
    have hmin : min (u / one) maxWord < n := hlt
    rw [← Nat.div_lt_iff_lt_mul one_pos]
    omega
  · exact absurd hlt (Nat.not_lt.mpr hn)

/-- A number of the format that is no larger than a count is not, either, when the count is
rounded. -/
theorem atMost_ofNat_of_le {u n : Nat} (h : ofRatio false num den = finite false u)
    (hn : u ≤ n * one) : AtMost (finite false u) (Binary32.ofNat n) := by
  rw [← ofRatio_units h]
  exact .ofRatio Nat.one_pos hn

/-- A positive number is a positive count of units. -/
theorem exists_units (h : c.isPositive = true) : ∃ u, 0 < u ∧ c = finite false u := by
  unfold isPositive at h
  split at h
  · next u => exact ⟨u, of_decide_eq_true h, rfl⟩
  · cases h

theorem finite_mul (x u : Nat) :
    finite false x * finite false u = ofRatio false (x * u) one := by
  change ofRatio (false != false) (x * u) one = _
  rw [bne_self_eq_false]

theorem finite_div (x : Nat) {u : Nat} (hu : 0 < u) :
    finite false x / finite false u = ofRatio false (x * one) u := by
  change (if u = 0 then _ else ofRatio (false != false) (x * one) u) = _
  rw [if_neg hu.ne', bne_self_eq_false]

theorem lt_of_units {x y : Nat} (h : x < y) : lt (finite false x) (finite false y) = true :=
  decide_eq_true h

theorem max_of_units {x y : Nat} (h : x < y) :
    (finite false x).max (finite false y) = finite false y := if_pos (lt_of_units h)

theorem max_of_units_ge {x y : Nat} (h : y ≤ x) :
    (finite false x).max (finite false y) = finite false x :=
  if_neg (by simpa [lt] using h)

theorem AtMost.mul_right (h : AtMost a b) (hc : c.isPositive = true) : AtMost (a * c) (b * c) := by
  obtain ⟨u, hu, rfl⟩ := exists_units hc
  have hinfinite : infinite false * finite false u = infinite false := if_neg hu.ne'
  unfold AtMost at h
  split at h
  · exact .ofRatio one_pos (Nat.mul_le_mul_right u h)
  · rw [hinfinite]
    exact atMost_infinite _ _
  · rw [hinfinite]
    trivial
  · exact h.elim

protected theorem mul_comm (a b : Binary32) : a * b = b * a := by
  change mul a b = mul b a
  cases a <;> cases b <;> simp only [mul, Nat.mul_comm, bne_comm]

theorem AtMost.div_right (h : AtMost a b) (hc : c.isPositive = true) : AtMost (a / c) (b / c) := by
  obtain ⟨u, hu, rfl⟩ := exists_units hc
  have hinfinite : infinite false / finite false u = infinite false := rfl
  unfold AtMost at h
  split at h
  · rw [finite_div _ hu, finite_div _ hu]
    exact .ofRatio hu (Nat.mul_le_mul_right one h)
  · rw [hinfinite, finite_div _ hu]
    exact atMost_infinite _ _
  · rw [hinfinite]
    trivial
  · exact h.elim

/-- A finite quotient is a ratio that was rounded. -/
theorem AtMost.exists_ofRatio {u : Nat} (ha : AtMost a a) (hc : c.isPositive = true)
    (h : a / c = finite false u) : ∃ num den, Binary32.ofRatio false num den = finite false u := by
  obtain ⟨v, hv, rfl⟩ := exists_units hc
  rcases ha.eq_or_eq with ⟨x, rfl⟩ | rfl
  · rw [finite_div _ hv] at h
    exact ⟨_, _, h⟩
  · cases h

theorem AtMost.le_max (ha : AtMost a a) (hb : AtMost b b) : AtMost a (a.max b) := by
  rcases ha.eq_or_eq with ⟨x, rfl⟩ | rfl
  · rcases hb.eq_or_eq with ⟨y, rfl⟩ | rfl
    · rcases Nat.lt_or_ge x y with hlt | hge
      · rw [max_of_units hlt]
        exact hlt.le
      · rw [max_of_units_ge hge]
        exact ha
    · trivial
  · rcases hb.eq_or_eq with ⟨y, rfl⟩ | rfl <;> trivial

theorem AtMost.not_lt (h : AtMost a b) : b.lt a = false := by
  unfold AtMost at h
  split at h
  · exact decide_eq_false (Nat.not_lt.mpr h)
  · rfl
  · rfl
  · exact h.elim

/-- The smaller of two such numbers, unless they are equal. -/
theorem AtMost.lt_or_eq (h : AtMost a b) : a.lt b = true ∨ a = b := by
  unfold AtMost at h
  split at h
  · rcases Nat.lt_or_eq_of_le h with hlt | rfl
    · exact .inl (decide_eq_true hlt)
    · exact .inr rfl
  · exact .inl rfl
  · exact .inr rfl
  · exact h.elim

end Binary32

end ArenaHash
