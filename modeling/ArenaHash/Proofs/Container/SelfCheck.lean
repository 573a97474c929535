import ArenaHash.Proofs.Container.Reached
import ArenaHash.Proofs.System.Safety
import Mathlib.Algebra.GroupWithZero.Nat

/-!
# The self-check

Under a hash function that does not change the self-check of a container succeeds in every state
it comes to: every entry is in the bucket that its key hashes to now, whatever the bucket count was
when it was inserted, and a stored hash is that of the key. So a walk lists the entries by bucket,
and the length of a chain is how many entries belong to its bucket.
-/

namespace ArenaHash

/-- A test that holds in one row only is passed by that row. -/
theorem Rows.filter_all {T : Type} (rows : Rows T) {p : Cell T → Bool} {i : Nat}
    (hp : ∀ j, ∀ c ∈ rows j, p c = (j == i)) (count : Nat) :
    (rows.all count).filter p = if i < count then rows i else [] := by
  induction count with
  | zero => rfl
  | succ n ih =>
    have hall : rows.all (n + 1) = rows.all n ++ rows n := by simp [all, List.range_succ]
    rw [hall, List.filter_append, ih]
    by_cases hn : n = i
    · subst hn
      rw [if_neg (Nat.lt_irrefl n), if_pos (Nat.lt_succ_self n), List.nil_append,
        List.filter_eq_self]
      exact fun c hc => by simp [hp n c hc]
    · have hnone : (rows n).filter p = [] :=
        List.filter_eq_nil_iff.mpr fun c hc => by simp [hp n c hc, hn]
      rw [hnone, List.append_nil]
      exact if_congr (by omega) rfl rfl

namespace Table

variable {s : Shape} {T A : Type} [Allocator A] {t : Table s T A} {heap : Heap A} {rows : Rows T}
  {others : List (Loan A)} {hashOf : T → UInt64} {hasher : Ref → T → UInt64}

theorem Stores.wellPlaced (h : t.Stores heap rows [] others)
    (hp : rows.Placed s.caching hashOf t.bucketCount) (hhasher : ∀ q e, hasher q e = hashOf e)
    {i : Nat} {c : Cell T} (hc : c ∈ rows i) : t.wellPlaced hasher i c.ref = true := by
  obtain ⟨next, hn⟩ := (h.chains i).carries hc
  obtain ⟨hhash, hi⟩ := hp i c hc
  have hnode : t.node? c.ref = some ⟨c.entry, next, c.hash⟩ := hn
  simp only [Table.wellPlaced, hnode, Option.any_some, hhasher, hhash, bucketOf, hi,
    beq_self_eq_true, Bool.and_true]
  cases s.caching <;> simp [Caching.keep]

/-- Chains and counts are always right, so the self-check is about the places of nodes only. -/
theorem Stores.check_iff (h : t.Stores heap rows [] others) :
    t.check hasher = true ↔ ∀ i, ∀ q ∈ t.chain i, t.wellPlaced hasher i q = true := by
  have hfollow : ∀ i, t.nodes.follow (t.size + 1) (t.buckets.head i) = t.chain i := by
    intro i
    rw [(h.chains i).follow, List.take_of_length_le, h.chain_eq]
    rw [List.length_map]
    exact Nat.le_succ_of_le (h.length_row_le i)
  have hlength : ((List.range t.bucketCount).flatMap t.chain).length = t.size :=
    h.wellFormed.length_refs
  simp only [Table.check, hfollow, Bool.and_eq_true, beq_iff_eq, List.all_map, List.flatMap_map,
    List.all_eq_true, List.mem_range, Function.comp_apply]
  refine ⟨fun hcheck i q hq => ?_, fun hplaced => ?_⟩
  · have hi : i < t.bucketCount := by
      rw [h.chain_eq] at hq
      obtain ⟨c, hc, -⟩ := List.mem_map.mp hq
      exact h.lt_of_mem hc
    exact hcheck.1.1.2 i hi q hq
  · exact ⟨⟨⟨h.keeps.sound.sentinelEmpty, fun i _ => hplaced i⟩, hlength⟩, h.wellFormed.live⟩

theorem Stores.check (h : t.Stores heap rows [] others)
    (hp : rows.Placed s.caching hashOf t.bucketCount) (hhasher : ∀ q e, hasher q e = hashOf e) :
    t.check hasher = true := by
  refine h.check_iff.mpr fun i q hq => ?_
  rw [h.chain_eq] at hq
  obtain ⟨c, hc, rfl⟩ := List.mem_map.mp hq
  exact h.wellPlaced hp hhasher hc

end Table

namespace Keyed

variable {s : Table.Shape} {K V A S : Type} [Allocator A] {f : S → K → UInt64}
  {c : Keyed s K V A S} {heap : Heap A}

/-- Everything is where it is looked for and counted once. -/
structure InPlace (f : S → K → UInt64) (c : Keyed s K V A S) : Prop where
  check : c.check (.ofFun f) = true
  /-- The sentinel is empty, chains end, and there are as many nodes in chains as entries and as
  slots in use. -/
  wellFormed : c.table.WellFormed
  placed : ∀ i, ∀ q ∈ c.table.chain i, ∃ n, c.table.node? q = some n ∧
    c.bucketOf (.ofFun f) n.entry.1 = i ∧ n.hash = s.caching.keep (f c.builder n.entry.1)
  walk : c.walk c.size c.cursor = c.toList
  sorted : (c.toList.map fun e => c.bucketOf (.ofFun f) e.1).Pairwise (· ≤ ·)
  sum_chainLength : ((List.range c.table.bucketCount).map c.table.chainLength).sum = c.size
  chainLength : ∀ i, c.table.chainLength i =
    c.toList.countP fun e => c.bucketOf (.ofFun f) e.1 == i
  chainLength_past : ∀ i, c.table.bucketCount ≤ i → c.table.chainLength i = 0

theorem Placed.bucketOf_entry {rows : Rows (K × V)} {others : List (Loan A)}
    (h : c.Placed f heap rows others) {i : Nat} {d : Cell (K × V)} (hd : d ∈ rows i) :
    c.bucketOf (.ofFun f) d.entry.1 = i := (h.placed i d hd).2

/-- The row of a bucket has all the cells that belong there. -/
theorem Placed.filter_bucket {rows : Rows (K × V)} {others : List (Loan A)}
    (h : c.Placed f heap rows others) (i : Nat) :
    (rows.all c.table.bucketCount).filter (fun d => c.bucketOf (.ofFun f) d.entry.1 == i) =
      rows i := by
  rw [rows.filter_all fun j d hd => by rw [h.bucketOf_entry hd]]
  split
  · rfl
  · next hi => exact (h.stores.row_eq_nil (Nat.le_of_not_lt hi)).symm

theorem Placed.inPlace {rows : Rows (K × V)} {others : List (Loan A)}
    (h : c.Placed f heap rows others) : c.InPlace f := by
  have hlength : ∀ i, c.table.chainLength i = (rows i).length := fun i => by
    rw [Table.chainLength, h.stores.chain_eq, List.length_map]
  refine {
    check := ?_, wellFormed := h.stores.wellFormed, placed := ?_, walk := h.walk_eq, sorted := ?_,
    sum_chainLength := ?_, chainLength := ?_, chainLength_past := ?_ }
  · exact h.stores.check h.placed fun _ _ => rfl
  · intro i q hq
    rw [h.stores.chain_eq] at hq
    obtain ⟨d, hd, rfl⟩ := List.mem_map.mp hq
    obtain ⟨next, hn⟩ := (h.stores.chains i).carries hd
    exact ⟨_, hn, h.bucketOf_entry hd, (h.placed i d hd).1⟩
  · rw [h.toList_eq, List.map_map, Rows.all, List.map_flatMap, List.pairwise_flatMap]
    refine ⟨fun i _ => ?_, List.pairwise_lt_range.imp ?_⟩
    · rw [List.pairwise_map]
      refine List.pairwise_of_forall_mem_list fun d hd e he => ?_
      exact (h.bucketOf_entry hd).trans_le (h.bucketOf_entry he).ge
    · intro i j hij x hx y hy
      obtain ⟨d, hd, rfl⟩ := List.mem_map.mp hx
      obtain ⟨e, he, rfl⟩ := List.mem_map.mp hy
      exact (h.bucketOf_entry hd).trans_le (hij.le.trans (h.bucketOf_entry he).ge)
  · have hall : (rows.all c.table.bucketCount).length = c.size := by
      rw [h.size_eq, h.toList_eq, List.length_map]
    rw [← hall, Rows.all, List.length_flatMap]
    exact congrArg List.sum (List.map_congr_left fun i _ => hlength i)
  · intro i
    rw [hlength, h.toList_eq, List.countP_map, List.countP_eq_length_filter]
    exact congrArg List.length (h.filter_bucket i).symm
  · intro i hi
    rw [hlength, h.stores.row_eq_nil hi, List.length_nil]

end Keyed

end ArenaHash
