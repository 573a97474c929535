import ArenaHash.Proofs.Table.Redistribution

/-!
# Room for one more entry

`t.due?` is the bucket count that one more entry asks for, if the present one is not enough. A tuned
table that makes room is then as it was, whether no array was due or the array was refused, or it is
`Redistributed`: the nodes are in new chains, and nothing else about them or their slots has
changed. An insertion that is denied leaves the table in one of these states, and `Refusal` says in
which, by the request that was refused.
-/

namespace ArenaHash

namespace Table

variable {s : Shape} {T A : Type} {t t' : Table s T A} {hasher : Ref → T → UInt64}

/-- The bucket count that one more entry asks for. -/
def due? (t : Table s T A) : Option Nat :=
  if s.overflow then (t.growth.advise t.bucketCount t.size 1).1 else none

/-- `t'` is `t` with all nodes moved, in order, to the chains of `count` buckets. -/
structure Redistributed (t : Table s T A) (hasher : Ref → T → UInt64) (count : Nat)
    (t' : Table s T A) : Prop where
  bucketCount : t'.bucketCount = count
  isGrown : t'.buckets.isGrown = true
  chain : ∀ i, t'.chain i = t.refs.filter fun q => (t.hashAt hasher q).toNat % count == i
  growth : t'.growth = t.growth.retarget count
  size : t'.size = t.size
  contentAt : ∀ q, t'.contentAt q = t.contentAt q
  books : t'.nodes.books = t.nodes.books

/-- A plan that asks for no more buckets stays as it is if it is in step. -/
theorem Tuned.advise (ht : t.Tuned) {due : Option Nat} {growth : Growth}
    (ha : t.growth.advise t.bucketCount t.size 1 = (due, growth)) :
    growth = t.growth.retarget (due.getD t.bucketCount) := by
  unfold Growth.advise at ha
  simp only at ha
  split at ha
  · cases ha
    exact ht.retarget.symm
  · cases ha
    rfl

theorem Redistributed.tuned {count : Nat} (h : t.Redistributed hasher count t')
    (ho : s.overflow = true) : t'.Tuned where
  retarget := by rw [h.bucketCount, h.growth, Growth.retarget_retarget]
  fixed ho' := by rw [ho] at ho'; cases ho'

theorem overflow_of_due {count : Nat} (h : t.due? = some count) : s.overflow = true := by
  unfold due? at h
  split at h
  · assumption
  · cases h

/-- With the array that was due there is room for the entry. -/
theorem Redistributed.due?_eq_none (hload : t.growth.maxLoad.isPositive = true) {count : Nat}
    (h : t.Redistributed hasher count t') (hdue : t.due? = some count) : t'.due? = none := by
  have ho := overflow_of_due hdue
  rw [due?, if_pos ho] at hdue ⊢
  have hadvise : t.growth.advise t.bucketCount t.size 1 = (some count, t'.growth) := by
    rcases ha : t.growth.advise t.bucketCount t.size 1 with ⟨due, growth⟩
    rw [ha] at hdue
    obtain rfl : due = some count := hdue
    rw [h.growth, ← (Growth.advise_eq_some ha).2]
  rw [h.bucketCount, h.size, Growth.advise_settled hload hadvise (le_refl _)]

variable [Allocator A] {heap heap' : Heap A} {rows : Rows T} {others : List (Loan A)}

/-- A table that was granted a larger array is redistributed and has returned the array before. -/
theorem Stores.redistributed (h : t.Stores heap rows [] others) {count : Nat} (h2 : 2 ≤ count)
    {growth : Growth} (hg : growth = t.growth.retarget count)
    (hr : redistribute { t with growth } count hasher heap = (.ok (), t', heap')) :
    t.Redistributed hasher count t' ∧
      ∃ block later, heap.request t.delegate (Shape.headLayout.row (count + 1)) =
          (.ok block, later) ∧
        heap' = HeapRow.release? Shape.headLayout t.buckets.grown t.delegate later := by
  have hcases := (h.withGrowth growth).redistribute_cases hasher h2
  rw [hr] at hcases
  cases hcases with
  | @served _ block later _ array request moved release events =>
    refine ⟨⟨moved.bucketCount, moved.isGrown, moved.chain, moved.growth.trans hg, moved.size,
      moved.contentAt, moved.books⟩, block, later, request, release⟩

/-- What making room comes to. -/
inductive Room (t : Table s T A) (hasher : Ref → T → UInt64) (heap : Heap A) :
    Except MemoryError Unit × Table s T A × Heap A → Prop where
  | enough (due : t.due? = none) : Room t hasher heap (.ok (), t, heap)
  | refused {count : Nat} {e : MemoryError} {later : Heap A} (due : t.due? = some count)
    (array : heap.request t.delegate (Shape.headLayout.row (count + 1)) = (.error e, later)) :
    Room t hasher heap (.error e, t, later)
  | grown {count : Nat} {t' : Table s T A} {block : Block} {later : Heap A}
    (due : t.due? = some count) (redistributed : t.Redistributed hasher count t')
    (array : heap.request t.delegate (Shape.headLayout.row (count + 1)) = (.ok block, later)) :
    Room t hasher heap
      (.ok (), t', HeapRow.release? Shape.headLayout t.buckets.grown t.delegate later)

theorem Tuned.room (ht : t.Tuned) (h : t.Stores heap rows [] others)
    (hasher : Ref → T → UInt64) : Room t hasher heap (t.makeRoom hasher heap) := by
  unfold Table.makeRoom
  split
  · next ho =>
    rcases ha : t.growth.advise t.bucketCount t.size 1 with ⟨due, growth⟩
    have hdue : t.due? = due := by rw [due?, if_pos ho, ha]
    have hgrowth := ht.advise ha
    cases due with
    | none =>
      have hsame : growth = t.growth := hgrowth.trans ht.retarget
      subst hsame
      exact .enough hdue
    | some count =>
      obtain ⟨h2, hcount⟩ := bounds_of_mem_primes _ (Growth.advise_mem_primes ha)
      simp only
      rcases hr : redistribute { t with growth } count hasher heap with ⟨e | _, t', heap'⟩
      · obtain ⟨rfl, -⟩ := (h.withGrowth growth).redistribute_error hr
        have hback : growth.retarget t.bucketCount = t.growth := by
          rw [hgrowth, Growth.retarget_retarget, ht.retarget]
        unfold Table.redistribute at hr
        rw [HeapRow.alloc_eq (Shape.array?_headLayout hcount)] at hr
        rcases hreq : heap.request { t with growth }.delegate
          (Shape.headLayout.row (count + 1)) with ⟨e' | block, later⟩
        · rw [hreq] at hr
          cases hr
          have hroom : Room t hasher heap (.error e, t, later) := .refused hdue hreq
          have heq : { t with growth := growth.retarget t.bucketCount } = t := by rw [hback]
          exact heq.symm ▸ hroom
        · rw [hreq] at hr
          cases hr
      · obtain ⟨hred, block, later, hreq, rfl⟩ := h.redistributed h2 hgrowth hr
        exact .grown hdue hred hreq
  · next ho => exact .enough (if_neg ho)

theorem Room.tuned {result : Except MemoryError Unit × Table s T A × Heap A}
    (h : Room t hasher heap result) (ht : t.Tuned) : result.2.1.Tuned := by
  cases h with
  | enough | refused => exact ht
  | grown due redistributed => exact redistributed.tuned (overflow_of_due due)

/-! ## Denied insertions -/

/-- What a denied insertion leaves, by the request that was refused. -/
inductive Refusal (t : Table s T A) (hasher : Ref → T → UInt64) (heap : Heap A) :
    MemoryError → Table s T A → Heap A → Prop where
  /-- All slots are in use, and there is no overflow memory. -/
  | full (strict : s.overflow = false) (size : t.size = s.capacity) :
    Refusal t hasher heap (.full s.capacity) t heap
  /-- No array was due. -/
  | node {e : MemoryError} {later : Heap A} (lax : s.overflow = true) (due : t.due? = none)
    (node : heap.request t.delegate s.nodeLayout = (.error e, later)) :
    Refusal t hasher heap e t later
  | array {count : Nat} {e : MemoryError} {later : Heap A} (due : t.due? = some count)
    (array : heap.request t.delegate (Shape.headLayout.row (count + 1)) = (.error e, later)) :
    Refusal t hasher heap e t later
  /-- The array was served and the one before it returned, and then the node was refused. -/
  | grown {count : Nat} {e : MemoryError} {t' : Table s T A} {block : Block}
    {later last : Heap A} (due : t.due? = some count)
    (array : heap.request t.delegate (Shape.headLayout.row (count + 1)) = (.ok block, later))
    (redistributed : t.Redistributed hasher count t')
    (node : (HeapRow.release? Shape.headLayout t.buckets.grown t.delegate later).request t.delegate
      s.nodeLayout = (.error e, last)) :
    Refusal t hasher heap e t' last

/-- Why a table is refused a node. -/
theorem Stores.newNode_refused (h : t.Stores heap rows [] others) {node : Node T}
    {e : MemoryError} (hn : t.newNode node heap = (.error e, t', heap')) :
    t' = t ∧
      (s.overflow = false ∧ t.size = s.capacity ∧ e = .full s.capacity ∧ heap' = heap ∨
        s.overflow = true ∧ heap.request t.delegate s.nodeLayout = (.error e, heap')) := by
  obtain ⟨hsame, -, hwhy⟩ := h.keeps.newNode_error hn
  refine ⟨hsame, ?_⟩
  rcases hwhy with ⟨ho, -⟩ | ⟨ho, rfl, hlen, rfl⟩
  · have hcases := Pool.allocation t.nodes heap
    unfold Table.newNode at hn
    split at hn
    · next hr =>
      rw [hr] at hcases
      cases hn
      cases hcases with
      | refused hf hle ho' hreq => exact .inr ⟨ho, hreq⟩
      | full hf hle ho' => exact absurd (ho.symm.trans ho') nofun
    · cases hn
  · exact .inl ⟨ho, h.keeps.size.trans hlen, rfl, rfl⟩

/-- The table without a node, after it made room. -/
theorem Refusal.of_room (h : t.Stores heap rows [] others) {room : Table s T A} {later : Heap A}
    {rows' : Rows T} (hroom : Room t hasher heap (.ok (), room, later))
    (hs : room.Stores later rows' [] others) {node : Node T} {e : MemoryError}
    (hn : room.newNode node later = (.error e, t', heap')) : Refusal t hasher heap e t' heap' := by
  obtain ⟨rfl, hwhy⟩ := hs.newNode_refused hn
  cases hroom with
  | enough due =>
    rcases hwhy with ⟨ho, hsize, rfl, rfl⟩ | ⟨ho, hreq⟩
    · exact .full ho hsize
    · exact .node ho due hreq
  | grown due redistributed array =>
    rcases hwhy with ⟨ho, -⟩ | ⟨ho, hreq⟩
    · exact absurd (ho.symm.trans (overflow_of_due due)) nofun
    · have hdelegate : t'.delegate = t.delegate :=
        congrArg (fun books => books.2.2.2.2) redistributed.books
      rw [hdelegate] at hreq
      exact .grown due array redistributed hreq

/-! ## Insertions

Once room is made, an insertion leaves bucket count and growth plan alone and asks for a slot only.
-/

/-- The slot is all that is requested. -/
theorem newNode_heap (t : Table s T A) (n : Node T) (heap : Heap A) :
    (t.newNode n heap).2.2 = (t.nodes.alloc heap).2.2 := by
  unfold newNode
  rcases t.nodes.alloc heap with ⟨_ | _, _, _⟩ <;> rfl

theorem linkFront_heap (t : Table s T A) (hash : UInt64) (entry : T) (heap : Heap A) :
    (t.linkFront hash entry heap).2.2 = (t.nodes.alloc heap).2.2 := by
  rw [← t.newNode_heap ⟨entry, t.buckets.head (t.bucketOf hash), s.caching.keep hash⟩]
  unfold linkFront
  simp only
  rcases t.newNode _ heap with ⟨_ | _, _, _⟩ <;> rfl

theorem linkAfter_heap (t : Table s T A) (first : Ref) (hash : UInt64) (entry : T)
    (heap : Heap A) : (t.linkAfter first hash entry heap).2.2 = (t.nodes.alloc heap).2.2 := by
  rw [← t.newNode_heap ⟨entry, t.nodes.next first, s.caching.keep hash⟩]
  unfold linkAfter
  rcases t.newNode _ heap with ⟨_ | _, _, _⟩ <;> rfl

theorem SamePlan.insertFront (t : Table s T A) (hash : UInt64) (entry : T)
    (hasher : Ref → T → UInt64) (heap : Heap A) :
    (t.makeRoom hasher heap).2.1.SamePlan (t.insertFront hash entry hasher heap).2.1 := by
  unfold Table.insertFront
  split
  · next hm =>
    rw [hm]
    exact .refl _
  · next room later hm =>
    rw [hm]
    exact .linkFront room hash entry later

theorem SamePlan.insertBeside (t : Table s T A) (hash : UInt64) (entry : T) (test : T → Bool)
    (hasher : Ref → T → UInt64) (heap : Heap A) :
    (t.makeRoom hasher heap).2.1.SamePlan (t.insertBeside hash entry test hasher heap).2.1 := by
  unfold Table.insertBeside
  split
  · next hm =>
    rw [hm]
    exact .refl _
  · next room later hm =>
    rw [hm]
    split
    · exact .linkAfter room _ hash entry later
    · exact .linkFront room hash entry later

section

variable (hroom : t.makeRoom hasher heap = (.ok (), t, heap))
include hroom

theorem insertFront_heap (hash : UInt64) (entry : T) :
    (t.insertFront hash entry hasher heap).2.2 = (t.nodes.alloc heap).2.2 := by
  simp only [insertFront, hroom]
  exact t.linkFront_heap hash entry heap

theorem insertBeside_heap (hash : UInt64) (entry : T) (test : T → Bool) :
    (t.insertBeside hash entry test hasher heap).2.2 = (t.nodes.alloc heap).2.2 := by
  simp only [insertBeside, hroom]
  split
  · exact t.linkAfter_heap _ hash entry heap
  · exact t.linkFront_heap hash entry heap

end

section Insertions

variable (ht : t.Tuned) (h : t.Stores heap rows [] others) {hash : UInt64} {entry : T}
  {e : MemoryError}
include ht h

theorem Tuned.insertFront_refused
    (hr : t.insertFront hash entry hasher heap = (.error e, t', heap')) :
    Refusal t hasher heap e t' heap' := by
  have hroom := ht.room h hasher
  unfold Table.insertFront at hr
  rcases hm : t.makeRoom hasher heap with ⟨e' | _, room, later⟩
  · rw [hm] at hr hroom
    cases hr
    cases hroom with
    | refused due array => exact .array due array
  · rw [hm] at hr hroom
    obtain ⟨rows', hs, -, -⟩ := h.makeRoom_ok hm
    unfold Table.linkFront at hr
    simp only at hr
    split at hr
    · next hn =>
      cases hr
      exact .of_room h hroom hs hn
    · cases hr

theorem Tuned.insertBeside_refused {test : T → Bool}
    (hr : t.insertBeside hash entry test hasher heap = (.error e, t', heap')) :
    Refusal t hasher heap e t' heap' := by
  have hroom := ht.room h hasher
  unfold Table.insertBeside at hr
  rcases hm : t.makeRoom hasher heap with ⟨e' | _, room, later⟩
  · rw [hm] at hr hroom
    cases hr
    cases hroom with
    | refused due array => exact .array due array
  · rw [hm] at hr hroom
    obtain ⟨rows', hs, -, -⟩ := h.makeRoom_ok hm
    unfold Table.linkFront Table.linkAfter at hr
    simp only at hr
    split at hr <;> split at hr
    · next hn =>
      cases hr
      exact .of_room h hroom hs hn
    · cases hr
    · next hn =>
      cases hr
      exact .of_room h hroom hs hn
    · cases hr

end Insertions

/-- Nothing is done to the plan but to make room, if that. -/
def Roomed (t : Table s T A) (hasher : Ref → T → UInt64) (heap : Heap A) (t' : Table s T A) :
    Prop :=
  t.SamePlan t' ∨ (t.makeRoom hasher heap).2.1.SamePlan t'

theorem Roomed.trans {t'' : Table s T A} (h : t.Roomed hasher heap t') (h' : t'.SamePlan t'') :
    t.Roomed hasher heap t'' :=
  h.imp (·.trans h') (·.trans h')

theorem Tuned.roomed (ht : t.Tuned) (h : t.Stores heap rows [] others)
    (hr : t.Roomed hasher heap t') : t'.Tuned := by
  rcases hr with hsame | hsame
  · exact hsame.tuned ht
  · exact hsame.tuned ((ht.room h hasher).tuned ht)

end Table

end ArenaHash
