import ArenaHash.Proofs.Table.Copies

/-!
# What becomes of bucket count and growth plan

Only four operations touch them: growing, going back to the inline array, a new load factor, and
copying. All others leave both as they are (`SamePlan`), and those that take entries out or change
them do nothing to the heap but return blocks to it (`Releases`); this needs no invariant. In a
`Tuned` table the limit of the plan is that of the present bucket count, and if it may not overflow
its array has never grown.
-/

namespace ArenaHash

theorem Buckets.isGrown_setHead {P : Type} (b : Buckets P) (i : Nat) (head : Option P) :
    (b.setHead i head).isGrown = b.isGrown := by
  unfold setHead modifyRow isGrown
  cases b.grown <;> simp

namespace Table

variable {s : Shape} {T A : Type} {t t' t'' : Table s T A} {heap heap' heap'' : Heap A}

structure SamePlan (t t' : Table s T A) : Prop where
  growth : t'.growth = t.growth
  bucketCount : t'.bucketCount = t.bucketCount
  isGrown : t'.buckets.isGrown = t.buckets.isGrown

structure Releases (t : Table s T A) (heap : Heap A) (t' : Table s T A) (heap' : Heap A) :
    Prop extends SamePlan t t' where
  size_le : t'.size ≤ t.size
  returns : heap.TakesBack heap'

namespace SamePlan

theorem refl (t : Table s T A) : t.SamePlan t := ⟨rfl, rfl, rfl⟩

theorem trans (h : t.SamePlan t') (h' : t'.SamePlan t'') : t.SamePlan t'' :=
  ⟨h'.growth.trans h.growth, h'.bucketCount.trans h.bucketCount, h'.isGrown.trans h.isGrown⟩

theorem setHead (t : Table s T A) (i : Nat) (head : Option Ref) : t.SamePlan (t.setHead i head) :=
  ⟨rfl, bucketCount_setHead t i head, t.buckets.isGrown_setHead i head⟩

theorem setNext (t : Table s T A) (q : Ref) (next : Option Ref) :
    t.SamePlan (t.setNext q next) := ⟨rfl, rfl, rfl⟩

theorem setEntry (t : Table s T A) (q : Ref) (entry : T) : t.SamePlan (t.setEntry q entry) :=
  ⟨rfl, rfl, rfl⟩

variable [Allocator A]

theorem newNode (t : Table s T A) (node : Node T) (heap : Heap A) :
    t.SamePlan (t.newNode node heap).2.1 := by
  unfold Table.newNode
  split <;> exact ⟨rfl, rfl, rfl⟩

theorem linkFront (t : Table s T A) (hash : UInt64) (entry : T) (heap : Heap A) :
    t.SamePlan (t.linkFront hash entry heap).2.1 := by
  have hnew := newNode t ⟨entry, t.buckets.head (t.bucketOf hash), s.caching.keep hash⟩ heap
  unfold Table.linkFront
  simp only
  split
  · next hr =>
    rw [hr] at hnew
    exact hnew
  · next hr =>
    rw [hr] at hnew
    exact hnew.trans (setHead _ _ _)

theorem linkAfter (t : Table s T A) (first : Ref) (hash : UInt64) (entry : T) (heap : Heap A) :
    t.SamePlan (t.linkAfter first hash entry heap).2.1 := by
  have hnew := newNode t ⟨entry, t.nodes.next first, s.caching.keep hash⟩ heap
  unfold Table.linkAfter
  split
  · next hr =>
    rw [hr] at hnew
    exact hnew
  · next hr =>
    rw [hr] at hnew
    exact hnew.trans (setNext _ _ _)

theorem setDelegate (t : Table s T A) (delegate : A) : t.SamePlan (t.setDelegate delegate).2 := by
  unfold Table.setDelegate
  split <;> exact ⟨rfl, rfl, rfl⟩

/-- Cells that are copied change nothing about the array they are put into. -/
theorem copyChain (t : Table s T A) (i : Nat) (qs : List Ref) (tail : Option Ref)
    (copy : Table s T A) (heap : Heap A) :
    copy.SamePlan (t.copyChain i qs tail copy heap).2.1 := by
  induction qs generalizing tail copy heap with
  | nil => exact refl copy
  | cons q qs ih =>
    cases hn : t.node? q with
    | none =>
      simp only [Table.copyChain, hn]
      exact ih tail copy heap
    | some n =>
      have hnew := newNode copy { n with next := none } heap
      simp only [Table.copyChain, hn]
      split
      · next hr =>
        rw [hr] at hnew
        exact hnew
      · next p linked later hr =>
        rw [hr] at hnew
        refine hnew.trans (SamePlan.trans ?_ (ih (some p) _ later))
        split
        · exact setNext _ _ _
        · exact setHead _ _ _

theorem copyChains (t : Table s T A) (is : List Nat) (copy : Table s T A) (heap : Heap A) :
    copy.SamePlan (t.copyChains is copy heap).2.1 := by
  induction is generalizing copy heap with
  | nil => exact refl copy
  | cons i is ih =>
    have hchain := copyChain t i (t.chain i) none copy heap
    unfold Table.copyChains
    split
    · next hr =>
      rw [hr] at hchain
      exact hchain
    · next hr =>
      rw [hr] at hchain
      exact hchain.trans (ih _ _)

end SamePlan

/-! ## Removals -/

theorem SamePlan.releases (h : t.SamePlan t') (hsize : t'.size = t.size) (heap : Heap A) :
    t.Releases heap t' heap :=
  ⟨h, hsize.le, .refl⟩

namespace Releases

theorem refl (t : Table s T A) (heap : Heap A) : t.Releases heap t heap :=
  ⟨.refl t, Nat.le_refl _, .refl⟩

theorem trans (h : t.Releases heap t' heap') (h' : t'.Releases heap' t'' heap'') :
    t.Releases heap t'' heap'' :=
  ⟨h.toSamePlan.trans h'.toSamePlan, h'.size_le.trans h.size_le, h.returns.trans h'.returns⟩

/-- A loop over steps that release. -/
theorem foldl {β ι : Type} (view : β → Table s T A × Heap A) {step : β → ι → β}
    (hstep : ∀ x i, (view x).1.Releases (view x).2 (view (step x i)).1 (view (step x i)).2)
    (is : List ι) (x : β) :
    (view x).1.Releases (view x).2 (view (is.foldl step x)).1 (view (is.foldl step x)).2 := by
  induction is generalizing x with
  | nil => exact refl _ _
  | cons i is ih => exact (hstep x i).trans (ih (step x i))

variable [Allocator A]

theorem freeNode (t : Table s T A) (q : Ref) (heap : Heap A) :
    t.Releases heap (t.freeNode q heap).1 (t.freeNode q heap).2 := by
  refine ⟨⟨rfl, rfl, rfl⟩, Nat.sub_le _ _, ?_⟩
  cases q with
  | inline i => exact .refl
  | overflow b => exact .giveBack .refl _ _ _

theorem unlink (t : Table s T A) (i : Nat) (prev : Option Ref) (q : Ref) (heap : Heap A) :
    t.Releases heap (t.unlink i prev q heap).1 (t.unlink i prev q heap).2 := by
  cases prev with
  | none => exact ((SamePlan.setHead t i _).releases rfl heap).trans (freeNode _ q heap)
  | some p => exact ((SamePlan.setNext t p _).releases rfl heap).trans (freeNode _ q heap)

theorem erase (t : Table s T A) (hash : UInt64) (test : T → Bool) (heap : Heap A) :
    t.Releases heap (t.erase hash test heap).2.1 (t.erase hash test heap).2.2 := by
  unfold Table.erase
  simp only
  split
  · next prev q _ => exact unlink t _ prev q heap
  · exact refl t heap

theorem eraseUpTo (hash : UInt64) (test : T → Bool) (limit : Nat) (t : Table s T A)
    (heap : Heap A) :
    t.Releases heap (Table.eraseUpTo hash test limit t heap).2.1
      (Table.eraseUpTo hash test limit t heap).2.2 := by
  induction limit generalizing t heap with
  | zero => exact refl t heap
  | succ limit ih =>
    have herase := erase t hash test heap
    unfold Table.eraseUpTo
    rcases hr : t.erase hash test heap with ⟨_ | entry, t', heap'⟩
    · rw [hr] at herase
      exact herase
    · rw [hr] at herase
      exact herase.trans (ih t' heap')

section Filter

variable {σ : Type} (keep : σ → T → Bool × T × σ)

theorem filterChain (i : Nat) (qs : List Ref) (prev : Option Ref) (state : σ) (t : Table s T A)
    (heap : Heap A) :
    t.Releases heap (Table.filterChain keep i qs prev state t heap).2.1
      (Table.filterChain keep i qs prev state t heap).2.2 := by
  induction qs generalizing prev state t heap with
  | nil => exact refl t heap
  | cons q qs ih =>
    cases he : t.entryAt? q with
    | none =>
      simp only [Table.filterChain, he]
      exact ih prev state t heap
    | some entry =>
      obtain ⟨kept, entry', state', hkeep⟩ :
          ∃ kept entry' state', keep state entry = (kept, entry', state') := ⟨_, _, _, rfl⟩
      have hset := (SamePlan.setEntry t q entry').releases rfl heap
      cases kept with
      | true =>
        simp only [Table.filterChain, he, hkeep, if_true]
        exact hset.trans (ih _ _ _ _)
      | false =>
        simp only [Table.filterChain, he, hkeep, Bool.false_eq_true, if_false]
        exact (hset.trans (unlink _ i prev q heap)).trans (ih _ _ _ _)

theorem filter (t : Table s T A) (state : σ) (heap : Heap A) :
    t.Releases heap (t.filter keep state heap).2.1 (t.filter keep state heap).2.2 :=
  foldl (fun x : σ × Table s T A × Heap A => x.2)
    (fun x i => filterChain keep i (x.2.1.chain i) none x.1 x.2.1 x.2.2)
    (List.range t.bucketCount) (state, t, heap)

end Filter

theorem pop (t : Table s T A) (position : Nat) (heap : Heap A) :
    t.Releases heap (t.pop position heap).2.2.1 (t.pop position heap).2.2.2 := by
  unfold Table.pop
  simp only
  split
  · next i q _ => exact ((SamePlan.setHead t i _).releases rfl heap).trans (freeNode _ q heap)
  · exact refl t heap

theorem setDelegate (t : Table s T A) (delegate : A) (heap : Heap A) :
    t.Releases heap (t.setDelegate delegate).2 heap := by
  refine (SamePlan.setDelegate t delegate).releases ?_ heap
  unfold Table.setDelegate
  split <;> rfl

theorem clearBucket (t : Table s T A) (i : Nat) (heap : Heap A) :
    t.Releases heap (t.clearBucket i heap).1 (t.clearBucket i heap).2 :=
  ((SamePlan.setHead t i none).releases rfl heap).trans
    (foldl id (fun x q => freeNode x.1 q x.2) (t.chain i) (t.setHead i none, heap))

theorem clear (t : Table s T A) (heap : Heap A) :
    t.Releases heap (t.clear heap).1 (t.clear heap).2 :=
  foldl id (fun x i => clearBucket x.1 i x.2) (List.range t.bucketCount) (t, heap)

end Releases

/-- Going back to the inline array may return the grown one. -/
theorem takesBack_shrink (t : Table s T A) (heap : Heap A) :
    heap.TakesBack (t.shrink heap).2 := by
  unfold shrink HeapRow.release? HeapRow.release Buckets.shrink
  cases t.buckets.grown with
  | none => exact .refl
  | some r =>
    simp only
    split
    · exact .giveBack .refl _ _ _
    · exact .refl

theorem takesBack_dispose [Allocator A] (t : Table s T A) (heap : Heap A) :
    heap.TakesBack (t.dispose heap) :=
  (Releases.clear t heap).returns.trans (takesBack_shrink _ _)

/-! ## Tuned tables -/

structure Tuned (t : Table s T A) : Prop where
  retarget : t.growth.retarget t.bucketCount = t.growth
  fixed : s.overflow = false → t.buckets.isGrown = false

theorem SamePlan.tuned (h : t.SamePlan t') (ht : t.Tuned) : t'.Tuned where
  retarget := by rw [h.growth, h.bucketCount, ht.retarget]
  fixed ho := h.isGrown.trans (ht.fixed ho)

theorem tuned_new (delegate : A) : (new delegate : Table s T A).Tuned where
  retarget := by
    have hcount : (new delegate : Table s T A).bucketCount = s.buckets := HeadRow.count_empty _
    rw [hcount]
    unfold new Shape.growth
    split <;> rfl
  fixed _ := rfl

theorem Tuned.setMaxLoad (h : t.Tuned) (maxLoad : Binary32) : (t.setMaxLoad maxLoad).Tuned := by
  unfold Table.setMaxLoad
  split
  · next ho =>
    split
    · next growth hg =>
      unfold Growth.setMaxLoad? at hg
      split at hg
      · cases hg
        exact ⟨Growth.retarget_retarget _ _ _, h.fixed⟩
      · cases hg
    · exact h
  · exact h

variable [Allocator A] {rows : Rows T} {others : List (Loan A)}

/-- A table that has not grown has the bucket count it was built with. -/
theorem Keeps.bucketCount_eq {live : List Ref} (h : t.Keeps heap live others)
    (hg : t.buckets.isGrown = false) : t.bucketCount = s.buckets := by
  have hnone : t.buckets.grown = none := by simpa [Buckets.isGrown] using hg
  simp [bucketCount, Buckets.count, Buckets.row, hnone, h.sound.inline_count]

theorem Stores.tuned_renew (h : t.Stores heap rows [] others) : (t.renew heap).1.Tuned where
  retarget := by
    rw [h.renew.keeps.bucketCount_eq rfl]
    exact Growth.retarget_retarget _ _ _
  fixed _ := rfl

theorem Stores.tuned_abandon (h : t.Stores heap rows [] others) : (t.abandon heap).1.Tuned where
  retarget := by
    rw [h.abandon.keeps.bucketCount_eq rfl]
    exact Growth.retarget_retarget _ _ _
  fixed _ := rfl

/-- A copy has the bucket count and the growth plan of the table. -/
theorem Stores.samePlan_copy (h : t.Stores heap rows [] others) {copy : Table s T A}
    (hr : t.copy heap = (.ok copy, heap')) : t.SamePlan copy := by
  obtain ⟨-, -, -, hcount, -⟩ := h.copy_ok hr
  have hbase : ∀ {base later}, t.copyBase heap = (.ok base, later) →
      base.growth = t.growth ∧ base.buckets.isGrown = t.buckets.isGrown := by
    intro base later hb
    unfold Table.copyBase at hb
    simp only at hb
    split at hb
    · next hgrown =>
      split at hb
      · cases hb
      · cases hb
        exact ⟨rfl, hgrown.symm⟩
    · next hgrown =>
      cases hb
      exact ⟨rfl, by simpa [new, Buckets.new, Buckets.isGrown] using hgrown⟩
  unfold Table.copy at hr
  split at hr
  · cases hr
  · next base later hb =>
    have hchains := SamePlan.copyChains t (List.range t.bucketCount) base later
    obtain ⟨hgrowth, hgrown⟩ := hbase hb
    split at hr
    · cases hr
    · next hc =>
      cases hr
      rw [hc] at hchains
      exact ⟨hchains.growth.trans hgrowth, hcount, hchains.isGrown.trans hgrown⟩

end Table

end ArenaHash
