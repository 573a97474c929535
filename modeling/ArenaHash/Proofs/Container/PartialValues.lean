import ArenaHash.Container.Value
import ArenaHash.Proofs.Container.Equality

/-!
# Multimaps of values that differ from themselves

If the equality of values is symmetric and transitive but not reflexive, the equality test of
multimaps sees only the pairs of the first one that equal themselves: the others occur nowhere, as
often in the second as in the first. Sizes make up for it if both have as many such pairs, or the
first has none. Otherwise the test may hold one way only, or both ways for different keys.
-/

namespace ArenaHash

open Keyed (hasKey)

section

variable {s : Table.Shape} {K V A S : Type} [BEq K] [EquivBEq K] [BEq V] [PartialEquivBEq V]
  [Allocator A] {f : S → K → UInt64} {a b : Multimap s K V A S} {heap heap' : Heap A}
  {R R' : Runs K V}

theorem Multimap.beq_iff_selfEqual (hf : Hashing.Faithful f) (ha : Run f a heap R)
    (hb : Run f b heap' R') :
    beq (.ofFun f) a b = true ↔ a.toList.length = b.toList.length ∧
      ∀ e ∈ selfEqual a.toList, a.toList.count e = b.toList.count e := by
  rw [beq_iff hf ha hb]
  refine and_congr_right fun _ => ⟨fun h e he => h e (List.mem_of_mem_filter he), fun h e he => ?_⟩
  by_cases hself : e == e
  · exact h e (List.mem_filter.mpr ⟨he, hself⟩)
  · have hself : (e == e) = false := by simpa using hself
    rw [count_eq_zero_of_ne_self hself, count_eq_zero_of_ne_self hself]

/-- Equality holds the other way round if the second has no more pairs that equal themselves. -/
theorem Multimap.beq_comm_of_le (hf : Hashing.Faithful f) (ha : Run f a heap R)
    (hb : Run f b heap' R')
    (hle : (selfEqual b.toList).length ≤ (selfEqual a.toList).length)
    (h : beq (.ofFun f) a b = true) : beq (.ofFun f) b a = true := by
  rw [beq_iff_selfEqual hf ha hb] at h
  rw [beq_iff hf hb ha]
  exact ⟨h.1.symm, fun e _ => (count_eq_of_selfEqual h.2 hle e).symm⟩

/-- Keys have as many entries in both if all pairs of the first equal themselves. -/
theorem Multimap.count_eq_of_beq (hf : Hashing.Faithful f) (ha : Run f a heap R)
    (hb : Run f b heap' R') (hself : ∀ e ∈ a.toList, e == e)
    (h : beq (.ofFun f) a b = true) (k : K) :
    a.count (.ofFun f) k = b.count (.ofFun f) k := by
  obtain ⟨hlen, hcount⟩ := (beq_iff hf ha hb).mp h
  obtain ⟨rows, others, hpa, -⟩ := (ha.models hf).placed
  obtain ⟨rows', others', hpb, -⟩ := (hb.models hf).placed
  have hkey : ∀ x y : K × V, x == y → hasKey k x = hasKey k y := fun x y hxy =>
    BEq.congr_left (Bool.and_eq_true_iff.mp hxy).1
  rw [hpa.count_eq hf, hpb.count_eq hf, ← List.countP_eq_length_filter,
    ← List.countP_eq_length_filter]
  exact countP_eq_of_count hself hcount hlen.ge hkey

/-- What the equality test of multimaps says if values need not equal themselves. It is symmetric
between multimaps with equally many pairs that do; and if all pairs of the first do, it holds only
where it holds the other way round and all keys have as many entries. -/
theorem multimap_beq_of_partial_values (hf : Hashing.Faithful f) (ha : Multimap.Run f a heap R)
    (hb : Multimap.Run f b heap' R') :
    (Multimap.beq (.ofFun f) a b = true ↔ a.toList.length = b.toList.length ∧
        ∀ e ∈ selfEqual a.toList, a.toList.count e = b.toList.count e) ∧
      ((selfEqual a.toList).length = (selfEqual b.toList).length →
        Multimap.beq (.ofFun f) a b = Multimap.beq (.ofFun f) b a) ∧
      ((∀ e ∈ a.toList, e.2 == e.2) → Multimap.beq (.ofFun f) a b = true →
        Multimap.beq (.ofFun f) b a = true ∧
          ∀ k, a.count (.ofFun f) k = b.count (.ofFun f) k) := by
  refine ⟨Multimap.beq_iff_selfEqual hf ha hb, ?_, ?_⟩
  · intro hlen
    rw [Bool.eq_iff_iff]
    exact ⟨Multimap.beq_comm_of_le hf ha hb hlen.ge, Multimap.beq_comm_of_le hf hb ha hlen.le⟩
  · intro hvalues hab
    have hself : ∀ e ∈ a.toList, e == e := fun e he =>
      Bool.and_eq_true_iff.mpr ⟨BEq.rfl, hvalues e he⟩
    have hle : (selfEqual b.toList).length ≤ (selfEqual a.toList).length := by
      have hall : selfEqual a.toList = a.toList := List.filter_eq_self.mpr hself
      rw [hall, ((Multimap.beq_iff hf ha hb).mp hab).1]
      exact List.length_filter_le _ _
    exact ⟨Multimap.beq_comm_of_le hf ha hb hle hab,
      Multimap.count_eq_of_beq hf ha hb hself hab⟩

end

theorem Value.beq_iff {v w : Value} : v == w ↔ ∃ n, v = .int n ∧ w = .int n := by
  constructor
  · intro h
    match v, w, h with
    | .int m, .int n, h =>
      obtain rfl : m = n := eq_of_beq h
      exact ⟨m, rfl, rfl⟩
  · rintro ⟨n, rfl, rfl⟩
    exact BEq.refl n

instance Value.partialEquivBEq : PartialEquivBEq Value where
  symm h := by
    obtain ⟨n, rfl, rfl⟩ := Value.beq_iff.mp h
    exact h
  trans h h' := by
    obtain ⟨n, rfl, rfl⟩ := Value.beq_iff.mp h
    exact h'

/-- A multimap that is filled from a list. -/
def filledMultimap (items : List (Nat × Value)) : Multimap .lax Nat Value Lender Unit :=
  (Keyed.insertMany (Multimap.insertion (.ofFun hashByParity)) (.new () .plain) items
    { serves := fun _ _ _ => true }).2.1

theorem run_filledMultimap (items : List (Nat × Value)) :
    ∃ heap R, Multimap.Run hashByParity (filledMultimap items) heap R := by
  have hnew := Multimap.Run.start (s := .lax) (K := Nat) (V := Value) (f := hashByParity) ()
    Lender.plain (Heap.lends_nil fun _ _ _ => true)
  obtain ⟨done, rest, -, hrun, -⟩ := hnew.insertMany faithful_hashByParity items
  exact ⟨_, _, hrun⟩

theorem filledMultimap_beq_reordered :
    let a := filledMultimap [(1, .int 5), (3, .int 7), (1, .int 6)]
    let b := filledMultimap [(1, .int 6), (1, .int 5), (3, .int 7)]
    Multimap.beq (.ofFun hashByParity) b a = true ∧
      ∀ k, a.count (.ofFun hashByParity) k = b.count (.ofFun hashByParity) k := by
  intro a b
  obtain ⟨heap, R, ha⟩ := run_filledMultimap [(1, .int 5), (3, .int 7), (1, .int 6)]
  obtain ⟨heap', R', hb⟩ := run_filledMultimap [(1, .int 6), (1, .int 5), (3, .int 7)]
  have h := multimap_beq_of_partial_values faithful_hashByParity ha hb
  exact h.2.2 (by decide +kernel) (by decide +kernel)

/-- A pair that differs from itself is passed over, whatever the second multimap has instead. -/
theorem multimap_beq_not_symmetric :
    let odd := filledMultimap [(1, .odd)]
    let other := filledMultimap [(1, .int 5)]
    let elsewhere := filledMultimap [(2, .odd)]
    (∃ heap R, Multimap.Run hashByParity odd heap R) ∧
      (∃ heap R, Multimap.Run hashByParity other heap R) ∧
      (∃ heap R, Multimap.Run hashByParity elsewhere heap R) ∧
      Multimap.beq (.ofFun hashByParity) odd other = true ∧
      Multimap.beq (.ofFun hashByParity) other odd = false ∧
      Multimap.beq (.ofFun hashByParity) odd elsewhere = true ∧
      odd.count (.ofFun hashByParity) 1 = 1 ∧ elsewhere.count (.ofFun hashByParity) 1 = 0 :=
  ⟨run_filledMultimap _, run_filledMultimap _, run_filledMultimap _, by decide +kernel,
    by decide +kernel, by decide +kernel, by decide +kernel, by decide +kernel⟩

end ArenaHash
