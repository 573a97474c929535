import ArenaHash.Proofs.Table.Resemblance
import ArenaHash.Proofs.Table.Plans

/-!
# Tables as new

`renew` returns every node and the bucket array, `abandon` the bucket array only. Neither looks at
what the counters of the pool came to: both set them. Since every node was in a chain, and the heads
of the inline array and the limit of the growth plan are set as well, what comes about is a table
just built, given the same load factor, except for what is left in its slots (`renew_eq`,
`abandon_eq`). The load factor has to be one that such a table takes (`Shape.Accepts`).
-/

namespace ArenaHash

theorem HeadRow.fill_none {P : Type} {r : HeadRow P} (h : r.sentinelEmpty = true) :
    r.fill none = .empty r.count := by
  obtain ⟨hpos, hlast⟩ := r.sentinelEmpty_iff.mp h
  have hsize : r.slots.size = r.count + 1 := (Nat.sub_add_cancel hpos).symm
  refine congrArg HeadRow.mk (Array.ext (by simp [hsize]) fun i hi hi' => ?_)
  rw [Array.getElem_mapIdx, Array.getElem_replicate]
  split
  · rfl
  · next hge =>
    have hi : i = r.slots.size - 1 := by
      have hlt : i < r.count + 1 := by simpa using hi'
      omega
    subst hi
    exact (Array.getElem?_eq_some_iff.mp hlast).2

theorem Buckets.Sound.shrink_eq {P : Type} {slot : Layout} {n : Nat} {b : Buckets P}
    (h : b.Sound slot n) : b.shrink.2 = .new n := by
  unfold Buckets.shrink Buckets.new
  rw [HeadRow.fill_none h.inline_sentinel, h.inline_count]

namespace Table

/-- A load factor that a table may have: the one it was built with or, if it may overflow, any that
is finite and positive. -/
def Shape.Accepts (s : Shape) (maxLoad : Binary32) : Prop :=
  maxLoad = s.growth.maxLoad ∨ s.overflow = true ∧ maxLoad.isPositive = true

variable {s : Shape} {T A : Type} {t : Table s T A}

theorem accepts_setMaxLoad (h : s.Accepts t.growth.maxLoad) (maxLoad : Binary32) :
    s.Accepts (t.setMaxLoad maxLoad).growth.maxLoad := by
  unfold setMaxLoad
  split
  · next ho =>
    split
    · next growth hg =>
      unfold Growth.setMaxLoad? at hg
      split at hg
      · next hpositive =>
        cases hg
        exact .inr ⟨ho, hpositive⟩
      · cases hg
    · exact h
  · exact h

/-- A table just built with the allocator of `t` and given its load factor. -/
def asNew (t : Table s T A) : Table s T A := (new t.delegate).setMaxLoad t.growth.maxLoad

/-- The table with something else in its inline slots. -/
def withSlots (t : Table s T A) (slots : Vector (Slot (Node T)) s.pool.capacity) : Table s T A :=
  { t with nodes := { t.nodes with slots } }

theorem asNew_eq (h : s.Accepts t.growth.maxLoad) :
    t.asNew = ⟨.new t.delegate, .new s.buckets, 0, t.growth.retarget s.buckets⟩ := by
  have hcount : (new t.delegate : Table s T A).bucketCount = s.buckets := HeadRow.count_empty _
  unfold asNew setMaxLoad
  by_cases ho : s.overflow = true
  · have hpositive : t.growth.maxLoad.isPositive = true := by
      rcases h with hload | ⟨-, hpositive⟩
      · rw [hload, Shape.growth, if_pos ho]
        exact (by decide : Growth.defaultLoad.isPositive = true)
      · exact hpositive
    rw [if_pos ho, hcount, Growth.setMaxLoad?, if_pos hpositive]
    rfl
  · have hload : t.growth.maxLoad = s.growth.maxLoad := h.resolve_right fun h => ho h.1
    have htuned := (tuned_new t.delegate : (new t.delegate : Table s T A).Tuned).retarget
    rw [hcount] at htuned
    rw [if_neg ho, Growth.retarget, hload]
    exact congrArg (Table.mk _ _ _) htuned.symm

/-- What is left in the slots of a new table is not told from what is in them when it is built. -/
theorem asNew_resembles (h : s.Accepts t.growth.maxLoad)
    (slots : Vector (Slot (Node T)) s.pool.capacity) :
    (t.asNew.withSlots slots).Resembles t.asNew := by
  rw [asNew_eq h]
  exact ⟨rfl, .of_untouched rfl rfl rfl rfl, fun i q hq => by
    cases hq.symm.trans (HeadRow.head_empty s.buckets i)⟩

variable [Allocator A] {heap : Heap A} {rows : Rows T} {others : List (Loan A)}

theorem Stores.renew_eq (h : t.Stores heap rows [] others) (ha : s.Accepts t.growth.maxLoad) :
    ∃ slots, t.renew heap = (t.asNew.withSlots slots, heap.repay (t.loans t.refs)) := by
  obtain ⟨t₁, heap₁, hclear, hs, -, hgone⟩ := h.clear
  have hsize : t₁.size = 0 := by simpa using hs.keeps.size
  have hgrowth : t₁.growth = t.growth := by
    have hsame := (Releases.clear t heap).growth
    rwa [hclear] at hsame
  refine ⟨t₁.nodes.slots, Prod.ext ?_ h.dispose_eq⟩
  have hdelegate : t₁.nodes.delegate = t.delegate := hgone.delegate
  unfold Table.renew
  simp only [hclear, asNew_eq ha, Table.shrink, hs.keeps.sound.shrink_eq, hsize, hgrowth]
  rw [Pool.forget, hdelegate]
  rfl

theorem Stores.abandon_eq (h : t.Stores heap rows [] others) (ha : s.Accepts t.growth.maxLoad) :
    ∃ slots, t.abandon heap = (t.asNew.withSlots slots,
      heap.repay (t.buckets.loans Shape.headLayout t.delegate)) := by
  refine ⟨t.nodes.slots, Prod.ext ?_ ?_⟩
  · rw [asNew_eq ha]
    simp only [Table.abandon, Table.shrink, h.keeps.sound.shrink_eq]
    rfl
  · exact HeapRow.release?_eq (fun r hr => (h.keeps.sound.grown r hr).2.2) t.delegate heap

end Table
end ArenaHash
