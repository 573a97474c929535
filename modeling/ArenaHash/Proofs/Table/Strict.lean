import ArenaHash.Proofs.Table.Room

/-!
# Tables without overflow memory

A table that may not overflow asks its allocator for nothing: inserting leaves the heap as it is,
and so does everything that only returns blocks, as there are none to return. A copy takes slots
that were never used, one after the other, so it succeeds as soon as the entries fit.
-/

namespace ArenaHash

namespace Pool

variable {p : Shape} {α A : Type} [Allocator A]

/-- A pool that may not overflow leaves the heap alone. -/
theorem heap_alloc (ho : p.overflow = false) (nodes : Pool p α A) (heap : Heap A) :
    (nodes.alloc heap).2.2 = heap := by
  have hcases := allocation nodes heap
  generalize nodes.alloc heap = result at hcases
  cases hcases with
  | reuse | touch | full => rfl
  | spill _ _ ho' | refused _ _ ho' => exact absurd (ho.symm.trans ho') nofun

end Pool

namespace Table

variable {s : Shape} {T A : Type} [Allocator A] {t t' : Table s T A} {heap heap' : Heap A}
  {rows rows' : Rows T} {others : List (Loan A)}

section Strict

variable (ho : s.overflow = false)
include ho

theorem makeRoom_strict (t : Table s T A) (hasher : Ref → T → UInt64) (heap : Heap A) :
    t.makeRoom hasher heap = (.ok (), t, heap) := by
  unfold makeRoom
  rw [if_neg (by simp [ho])]

theorem heap_insertFront (t : Table s T A) (hash : UInt64) (entry : T)
    (hasher : Ref → T → UInt64) (heap : Heap A) :
    (t.insertFront hash entry hasher heap).2.2 = heap := by
  rw [insertFront_heap (makeRoom_strict ho t hasher heap), Pool.heap_alloc ho]

theorem heap_insertBeside (t : Table s T A) (hash : UInt64) (entry : T) (test : T → Bool)
    (hasher : Ref → T → UInt64) (heap : Heap A) :
    (t.insertBeside hash entry test hasher heap).2.2 = heap := by
  rw [insertBeside_heap (makeRoom_strict ho t hasher heap), Pool.heap_alloc ho]

theorem Stores.loans_nodes_strict (h : t.Stores heap rows [] others) :
    t.nodes.loans t.refs = [] := by
  have hspills := h.keeps.holds.spills ho
  rw [List.append_nil, ← h.refs_eq] at hspills
  rw [Pool.loans, hspills, List.map_nil]

/-- A table that may not overflow and has not grown owes nothing. -/
theorem Keeps.loans_strict {live : List Ref} (h : t.Keeps heap live others) (ht : t.Tuned) :
    t.loans live = [] :=
  h.loans_eq_nil (by rw [h.holds.overflowLive, h.holds.spills ho, List.length_nil])
    (ht.fixed ho)

/-- Where nothing is owed nothing can be returned. -/
theorem Stores.heap_eq (h : t.Stores heap rows [] others) (ht : t.Tuned)
    (h' : t'.Stores heap' rows' [] others) (ht' : t'.Tuned) (hr : heap.TakesBack heap') :
    heap' = heap := by
  have hl := h.keeps.lends
  have hl' := h'.keeps.lends
  rw [h.keeps.loans_strict ho ht, List.nil_append] at hl
  rw [h'.keeps.loans_strict ho ht', List.nil_append] at hl'
  exact hr.eq_of_lends hl hl'

theorem Stores.heap_dispose (h : t.Stores heap rows [] others) (ht : t.Tuned) :
    t.dispose heap = heap := by
  have hl := h.keeps.lends
  rw [h.keeps.loans_strict ho ht, List.nil_append] at hl
  exact (takesBack_dispose t heap).eq_of_lends hl h.dispose

end Strict

end Table

end ArenaHash
