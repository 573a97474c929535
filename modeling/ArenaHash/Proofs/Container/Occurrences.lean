import Mathlib.Data.List.Count
import Mathlib.Data.List.Forall2
import Mathlib.Data.List.Perm.Subperm

/-!
# How often elements occur

Elements are counted up to an equality that need not be reflexive; one that differs from itself
occurs nowhere. If every element of a list occurs in another list as often as in its own, then its
elements can be matched with elements of the other, each with one of its own (`exists_matching`).
So two lists of one length have the same elements, equally often, as soon as this is known of the
elements of one of them (`count_eq_iff`), unless some differ from themselves.
-/

namespace ArenaHash

instance partialEquivBEq_prod {K V : Type} [BEq K] [BEq V] [PartialEquivBEq K]
    [PartialEquivBEq V] : PartialEquivBEq (K × V) where
  symm h := by
    obtain ⟨hk, hv⟩ := Bool.and_eq_true_iff.mp h
    exact Bool.and_eq_true_iff.mpr ⟨BEq.symm hk, BEq.symm hv⟩
  trans h h' := by
    obtain ⟨hk, hv⟩ := Bool.and_eq_true_iff.mp h
    obtain ⟨hk', hv'⟩ := Bool.and_eq_true_iff.mp h'
    exact Bool.and_eq_true_iff.mpr ⟨BEq.trans hk hk', BEq.trans hv hv'⟩

instance equivBEq_prod {K V : Type} [BEq K] [BEq V] [EquivBEq K] [EquivBEq V] :
    EquivBEq (K × V) where

variable {α : Type} [BEq α] {l l' m : List α}

/-- The elements that equal themselves. -/
def selfEqual (l : List α) : List α := l.filter fun x => x == x

section Partial

variable [PartialEquivBEq α]

theorem self_of_beq {x y : α} (h : x == y) : x == x := BEq.trans h (BEq.symm h)

theorem count_selfEqual (x : α) (l : List α) : (selfEqual l).count x = l.count x := by
  rw [selfEqual, List.count_eq_countP, List.count_eq_countP, List.countP_filter]
  refine List.countP_congr fun y _ => ?_
  rw [Bool.and_eq_true]
  exact ⟨fun h => h.1, fun h => ⟨h, self_of_beq h⟩⟩

theorem count_eq_zero_of_ne_self {x : α} (h : (x == x) = false) (l : List α) : l.count x = 0 := by
  refine List.countP_eq_zero.mpr fun y _ hyx => ?_
  rw [self_of_beq (BEq.symm hyx)] at h
  cases h

/-- Elements that occur often enough in another list are matched with elements of it. -/
theorem exists_matching (hself : ∀ x ∈ l, x == x) (h : ∀ x ∈ l, l.count x ≤ l'.count x) :
    ∃ m, List.Forall₂ (fun x y => x == y) l m ∧ m.Subperm l' := by
  induction l generalizing l' with
  | nil => exact ⟨[], .nil, List.nil_subperm⟩
  | cons x l ih =>
    have hx : x == x := hself x List.mem_cons_self
    have hpos : 0 < l'.count x := by
      have hle := h x List.mem_cons_self
      rw [List.count_cons, if_pos hx] at hle
      omega
    obtain ⟨d, hd, hdx⟩ := List.countP_pos_iff.mp hpos
    obtain ⟨left, right, rfl⟩ := List.append_of_mem hd
    -- Without `d`, which is for `x`, the other list has enough for the rest.
    have hrest : ∀ y ∈ l, l.count y ≤ (left ++ right).count y := by
      intro y hy
      have hle := h y (List.mem_cons_of_mem x hy)
      rw [List.perm_middle.count_eq, List.count_cons, List.count_cons, BEq.congr_left hdx] at hle
      omega
    obtain ⟨m, hm, hsub⟩ := ih (fun y hy => hself y (List.mem_cons_of_mem x hy)) hrest
    exact ⟨d :: m, .cons (BEq.symm hdx) hm,
      ((List.subperm_cons d).mpr hsub).trans List.perm_middle.symm.subperm⟩

omit [PartialEquivBEq α] in
/-- A test that cannot tell equal elements apart passes as many on both sides of a matching. -/
theorem countP_of_matching {p : α → Bool} (hp : ∀ x y, x == y → p x = p y)
    (h : List.Forall₂ (fun x y => x == y) l m) : l.countP p = m.countP p := by
  induction h with
  | nil => rfl
  | cons hxy _ ih => rw [List.countP_cons, List.countP_cons, ih, hp _ _ hxy]

/-- If the elements of `l` use up all of `l'`, no such test tells the two apart. -/
theorem countP_eq_of_count (hself : ∀ x ∈ l, x == x) (h : ∀ x ∈ l, l.count x = l'.count x)
    (hlen : l'.length ≤ l.length) {p : α → Bool} (hp : ∀ x y, x == y → p x = p y) :
    l.countP p = l'.countP p := by
  obtain ⟨m, hm, hsub⟩ := exists_matching hself fun x hx => Nat.le_of_eq (h x hx)
  have hperm : m.Perm l' := hsub.perm_of_length_le (hm.length_eq ▸ hlen)
  rw [countP_of_matching hp hm, hperm.countP_eq]

/-- In particular every element occurs as often in both. -/
theorem count_eq_of_count (hself : ∀ x ∈ l, x == x) (h : ∀ x ∈ l, l.count x = l'.count x)
    (hlen : l'.length ≤ l.length) (x : α) : l.count x = l'.count x :=
  countP_eq_of_count hself h hlen fun _ _ hyz => BEq.congr_left hyz

/-- Elements that differ from themselves may be left out of account. -/
theorem count_eq_of_selfEqual (h : ∀ x ∈ selfEqual l, l.count x = l'.count x)
    (hlen : (selfEqual l').length ≤ (selfEqual l).length) (x : α) : l.count x = l'.count x := by
  rw [← count_selfEqual x l, ← count_selfEqual x l']
  have hself : ∀ y ∈ selfEqual l, y == y := fun y hy =>
    List.of_mem_filter (p := fun y => y == y) hy
  refine count_eq_of_count hself (fun y hy => ?_) hlen x
  rw [count_selfEqual, count_selfEqual]
  exact h y hy

end Partial

section Equivalence

variable [EquivBEq α]

theorem length_le_of_count (h : ∀ x ∈ l, l.count x ≤ l'.count x) : l.length ≤ l'.length := by
  obtain ⟨m, hm, hsub⟩ := exists_matching (fun _ _ => BEq.rfl) h
  exact hm.length_eq ▸ hsub.length_le

theorem count_eq_iff : (l.length = l'.length ∧ ∀ x ∈ l, l.count x = l'.count x) ↔
    ∀ x, l.count x = l'.count x := by
  constructor
  · rintro ⟨hlen, h⟩
    exact count_eq_of_count (fun _ _ => BEq.rfl) h (Nat.le_of_eq hlen.symm)
  · intro h
    refine ⟨Nat.le_antisymm ?_ ?_, fun x _ => h x⟩
    · exact length_le_of_count fun x _ => Nat.le_of_eq (h x)
    · exact length_le_of_count fun x _ => Nat.le_of_eq (h x).symm

/-- Of elements that differ from each other each occurs at most once. -/
theorem count_of_pairwise (h : l.Pairwise fun x y => (x == y) = false) (x : α) :
    l.count x = (l.any (· == x)).toNat := by
  induction h with
  | nil => rfl
  | @cons y l hy _ ih =>
    rw [List.count_cons, List.any_cons, ih]
    by_cases hyx : y == x
    · have hnone : l.any (· == x) = false := by
        refine List.any_eq_false.mpr fun z hz hzx => ?_
        have hne := hy z hz
        rw [BEq.trans hyx (BEq.symm hzx)] at hne
        cases hne
      simp [hyx, hnone]
    · simp [hyx]

/-- Two lists of one length, each without equal elements, have the same elements as soon as the
second has those of the first. -/
theorem any_eq_iff (h : l.Pairwise fun x y => (x == y) = false)
    (h' : l'.Pairwise fun x y => (x == y) = false) :
    (l.length = l'.length ∧ ∀ x ∈ l, l'.any (· == x)) ↔
      ∀ x, l.any (· == x) = l'.any (· == x) := by
  have hself : ∀ x ∈ l, l.any (· == x) = true := fun x hx =>
    List.any_eq_true.mpr ⟨x, hx, BEq.rfl⟩
  have hcount : (∀ x, l.count x = l'.count x) ↔ ∀ x, l.any (· == x) = l'.any (· == x) := by
    refine forall_congr' fun x => ?_
    rw [count_of_pairwise h, count_of_pairwise h']
    cases l.any (· == x) <;> cases l'.any (· == x) <;> simp
  rw [← hcount, ← count_eq_iff]
  refine and_congr_right fun _ => forall₂_congr fun x hx => ?_
  rw [count_of_pairwise h, count_of_pairwise h', hself x hx]
  cases l'.any (· == x) <;> simp

end Equivalence

end ArenaHash
