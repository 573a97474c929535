import ArenaHash.Proofs.Growth.Exact
import ArenaHash.Proofs.Table.Strict

/-!
# Tables within their inline memory

A table is `AsBuilt` if its bucket array has not grown and its load factor is the default one. Such
a table has room for as many entries as it has buckets, and asks the heap for nothing as long as
fewer than that, and fewer than there are inline slots, are in it. Load factors are rounded numbers;
the argument needs counts that they represent exactly.
-/

namespace ArenaHash.Table

variable {s : Shape} {T A : Type} {t : Table s T A}

/-- Bucket array and load factor are those that a table that may overflow is built with. -/
structure AsBuilt (t : Table s T A) : Prop where
  inline : t.buckets.isGrown = false
  maxLoad : t.growth.maxLoad = Growth.defaultLoad

theorem asBuilt_new (ho : s.overflow = true) (delegate : A) :
    (new delegate : Table s T A).AsBuilt where
  inline := rfl
  maxLoad := by
    simp only [new, Shape.growth, if_pos ho, Growth.new, ite_self]

/-- The number of entries that fit into the inline slots and buckets. -/
def Shape.room (s : Shape) : Nat := min s.capacity s.buckets

variable [Allocator A] {heap heap' : Heap A} {rows : Rows T} {others : List (Loan A)}

/-- A table that owes nothing has all its entries in inline slots, in its inline array. -/
theorem Stores.inline_of_loans (h : t.Stores heap rows [] others) (hl : t.loans t.refs = []) :
    t.usesOverflow = false ∧ t.buckets.isGrown = false ∧ t.size ≤ s.capacity := by
  have hk := h.keeps
  rw [List.append_nil, ← h.refs_eq] at hk
  obtain ⟨hnodes, hrow⟩ := List.append_eq_nil_iff.mp hl
  have hblocks : t.refs.filterMap Handle.block? = [] := List.map_eq_nil_iff.mp hnodes
  have hgrown : t.buckets.isGrown = false := by
    simpa [Buckets.isGrown, Buckets.loans] using hrow
  have hlive : t.nodes.overflowLive = 0 := by rw [hk.holds.overflowLive, hblocks]; rfl
  refine ⟨by simp [usesOverflow, hlive, hgrown], hgrown, ?_⟩
  have hlength := Handle.length_index_add_block t.refs
  rw [hblocks, List.length_nil, Nat.add_zero] at hlength
  rw [hk.size, ← hlength]
  exact hk.holds.inlineLive_le

theorem Stores.heap_alloc_inline (h : t.Stores heap rows [] others) (hsize : t.size < s.room) :
    (t.nodes.alloc heap).2.2 = heap := by
  refine h.keeps.holds.heap_alloc_of_lt ?_ heap
  rw [← h.keeps.size]
  exact lt_of_lt_of_le hsize (Nat.min_le_left _ _)

section

variable (h : t.Stores heap rows [] others) (ht : t.Tuned) (hb : t.AsBuilt)
  (hbuckets : s.buckets ≤ 2 ^ 24) (hsize : t.size < s.room) {hasher : Ref → T → UInt64}
include h ht hb hbuckets hsize

theorem Stores.due?_inline : t.due? = none := by
  have hcount := h.keeps.bucketCount_eq hb.inline
  have hlimit : t.growth.limit = s.buckets := by
    rw [← ht.retarget, hcount, Growth.retarget, hb.maxLoad]
    exact Growth.limitFor_defaultLoad hbuckets
  have hlt : t.size < s.buckets := lt_of_lt_of_le hsize (Nat.min_le_right _ _)
  unfold due?
  split
  · rw [Growth.advise, if_pos (by omega)]
  · rfl

theorem Stores.makeRoom_inline : t.makeRoom hasher heap = (.ok (), t, heap) := by
  have hroom := ht.room h hasher
  have hdue := h.due?_inline ht hb hbuckets hsize
  generalize t.makeRoom hasher heap = result at hroom
  cases hroom with
  | enough => rfl
  | refused due | grown due => rw [hdue] at due; cases due

theorem Stores.heap_insertFront_inline (hash : UInt64) (entry : T) :
    (t.insertFront hash entry hasher heap).2.2 = heap := by
  rw [insertFront_heap (h.makeRoom_inline ht hb hbuckets hsize)]
  exact h.heap_alloc_inline hsize

theorem Stores.heap_insertBeside_inline (hash : UInt64) (entry : T) (test : T → Bool) :
    (t.insertBeside hash entry test hasher heap).2.2 = heap := by
  rw [insertBeside_heap (h.makeRoom_inline ht hb hbuckets hsize)]
  exact h.heap_alloc_inline hsize

end

end ArenaHash.Table
