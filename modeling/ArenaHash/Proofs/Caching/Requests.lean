import ArenaHash.Proofs.Caching.Tables
import ArenaHash.Proofs.Table.Room

/-!
# Requests without hashes

Insertions and copies of a table and of its `bare` counterpart, on heaps that make the same
decisions. An operation that makes several requests needs this for each of them, and that they were
decided alike at the end says so: events are only ever added (`Heap.Before`). A table that grows
uses the stored hashes, so these have to be those that would be computed (`Knows`).
-/

namespace ArenaHash

theorem Heap.TakesBack.before {A : Type} {heap later : Heap A} (h : heap.TakesBack later) :
    heap.Before later := by
  induction h with
  | refl => exact .refl heap
  | giveBack h lender b layout ih => exact ih.trans (Heap.before_giveBack _ lender b layout)

namespace Table

variable {s : Shape} {T A : Type} [Allocator A] {t : Table s T A} {heap heap' : Heap A}
  {hasher : Ref → T → UInt64}

/-! ## New nodes -/

section

variable (h : heap.Alike s heap')
  (hsame : (t.nodes.alloc heap).2.2.SameDecisions (t.nodes.bare.alloc heap').2.2)
include h hsame

theorem newNode_matches (n : Node T) :
    Matches s (AlikeAnswer s) bare (t.newNode n heap) (t.bare.newNode n.bare heap') := by
  have hpool : t.bare.nodes = t.nodes.bare := rfl
  unfold newNode
  rw [hpool]
  rcases (t.nodes.alloc_matches h hsame).cases with
    ⟨q, nodes, later, later', ho, ho', hk⟩ | ⟨e, e', nodes, later, later', ho, ho', he, hk⟩
  · simp only [ho, ho', ← Pool.bare_write]
    exact ⟨.ok q, rfl, hk⟩
  · simp only [ho, ho']
    exact ⟨.error he, rfl, hk⟩

theorem linkFront_matches (hash : UInt64) (entry : T) :
    Matches s (AlikeAnswer s) bare (t.linkFront hash entry heap)
      (t.bare.linkFront hash entry heap') := by
  have hn : Matches s (AlikeAnswer s) bare
      (t.newNode ⟨entry, t.buckets.head (t.bucketOf hash), s.caching.keep hash⟩ heap)
      (t.bare.newNode ⟨entry, t.bare.buckets.head (t.bare.bucketOf hash),
        s.bare.caching.keep hash⟩ heap') := newNode_matches h hsame _
  unfold linkFront
  rcases hn.cases with
    ⟨q, t', later, later', ho, ho', hk⟩ | ⟨e, e', t', later, later', ho, ho', he, hk⟩
  · simp only [ho, ho']
    exact ⟨.ok q, rfl, hk⟩
  · simp only [ho, ho']
    exact ⟨.error he, rfl, hk⟩

theorem linkAfter_matches (first : Ref) (hash : UInt64) (entry : T) :
    Matches s (AlikeAnswer s) bare (t.linkAfter first hash entry heap)
      (t.bare.linkAfter first hash entry heap') := by
  have hnext : t.bare.nodes.next first = t.nodes.next first := t.nodes.next_bare first
  have hn : Matches s (AlikeAnswer s) bare
      (t.newNode ⟨entry, t.nodes.next first, s.caching.keep hash⟩ heap)
      (t.bare.newNode ⟨entry, t.nodes.next first, s.bare.caching.keep hash⟩ heap') :=
    newNode_matches h hsame _
  unfold linkAfter
  rw [hnext]
  rcases hn.cases with
    ⟨q, t', later, later', ho, ho', hk⟩ | ⟨e, e', t', later, later', ho, ho', he, hk⟩
  · simp only [ho, ho', setNext_bare]
    exact ⟨.ok q, rfl, hk⟩
  · simp only [ho, ho']
    exact ⟨.error he, rfl, hk⟩

end

/-! ## Growth -/

/-- The stored hashes of the nodes are those that would be computed. -/
def Knows (t : Table s T A) (hasher : Ref → T → UInt64) (qs : List Ref) : Prop :=
  ∀ q ∈ qs, t.bare.hashAt hasher q = t.hashAt hasher q

omit [Allocator A] in
theorem pushFront_bare (t : Table s T A) (i : Nat) (q : Ref) :
    t.bare.pushFront i q = (t.pushFront i q).bare := by
  unfold pushFront
  rw [setNext_bare, setHead_bare]
  rfl

omit [Allocator A] in
theorem place_bare {qs : List Ref} (hk : t.Knows hasher qs) :
    place t.bare hasher qs = (place t hasher qs).bare := by
  induction qs generalizing t with
  | nil => rfl
  | cons q qs ih =>
    have hnext : (t.pushFront (t.bucketOf (t.hashAt hasher q)) q).Knows hasher qs := fun p hp => by
      rw [← pushFront_bare, hashAt_pushFront, hashAt_pushFront]
      exact hk p (List.mem_cons_of_mem q hp)
    unfold place at ih ⊢
    rw [List.foldl_cons, List.foldl_cons, hk q List.mem_cons_self, bucketOf_bare, pushFront_bare,
      ih hnext]

theorem before_redistribute (t : Table s T A) (count : Nat) (hasher : Ref → T → UInt64)
    (heap : Heap A) : (HeapRow.alloc (P := Ref) Shape.headLayout count t.delegate heap).2.Before
      (t.redistribute count hasher heap).2.2 := by
  unfold redistribute
  rcases HeapRow.alloc Shape.headLayout count t.delegate heap with ⟨_ | fresh, later⟩
  · exact .refl later
  · exact HeapRow.before_release? _ _ _ later

section

variable (h : heap.Alike s heap') (hknows : t.Knows hasher t.refs)
include h hknows

theorem redistribute_matches (count : Nat)
    (hsame : (t.redistribute count hasher heap).2.2.SameDecisions
      (t.bare.redistribute count hasher heap').2.2) :
    Matches s (AlikeAnswer s) bare (t.redistribute count hasher heap)
      (t.bare.redistribute count hasher heap') := by
  have hdelegate : t.bare.delegate = t.delegate := rfl
  have hbuckets : t.bare.buckets = t.buckets := rfl
  have hplaced : ∀ buckets, place { t.bare with buckets } hasher t.refs.reverse =
      (place { t with buckets } hasher t.refs.reverse).bare := fun buckets =>
    place_bare (t := { t with buckets }) fun q hq => hknows q (List.mem_reverse.mp hq)
  obtain ⟨ha, hk⟩ := HeapRow.alloc_alike Shape.headLayout t.delegate h count
    (hsame.of_later (before_redistribute t count hasher heap)
      (before_redistribute t.bare count hasher heap'))
  clear hsame
  unfold redistribute
  rw [hdelegate, hbuckets, refs_bare]
  generalize HeapRow.alloc Shape.headLayout count t.delegate heap = out,
    HeapRow.alloc Shape.headLayout count t.delegate heap' = out' at ha hk ⊢
  obtain ⟨_ | fresh, later⟩ := out <;> obtain ⟨_ | fresh', later'⟩ := out' <;> cases ha
  · next he => exact ⟨.error he, rfl, hk⟩
  · exact ⟨.ok (), hplaced _, HeapRow.release?_alike _ _ _ hk⟩

omit h hknows in
/-- The array is all that is requested. -/
theorem makeRoom_heap (ho : s.overflow = true) {count : Nat} {growth : Growth}
    (ha : t.growth.advise t.bucketCount t.size 1 = (some count, growth)) (heap : Heap A) :
    (t.makeRoom hasher heap).2.2 = (redistribute { t with growth } count hasher heap).2.2 := by
  simp only [makeRoom, ho, if_true, ha]
  -- closed by `simp only`: comparing the tables themselves by `rfl` would compute their limits
  rcases redistribute { t with growth } count hasher heap with ⟨_ | _, room, later⟩ <;> simp only

theorem makeRoom_matches
    (hsame : (t.makeRoom hasher heap).2.2.SameDecisions (t.bare.makeRoom hasher heap').2.2) :
    Matches s (AlikeAnswer s) bare (t.makeRoom hasher heap) (t.bare.makeRoom hasher heap') := by
  have hadvise : t.bare.growth.advise t.bare.bucketCount t.bare.size 1 =
      t.growth.advise t.bucketCount t.size 1 := rfl
  by_cases ho : s.overflow = true
  · have ho' : s.bare.overflow = true := ho
    rcases ha : t.growth.advise t.bucketCount t.size 1 with ⟨_ | count, growth⟩
    · simp only [makeRoom, ho, ho', if_true, hadvise, ha]
      exact ⟨.ok (), rfl, h⟩
    · have ha' := hadvise.trans ha
      rw [makeRoom_heap ho ha, makeRoom_heap ho' ha'] at hsame
      have hm : Matches s (AlikeAnswer s) bare (redistribute { t with growth } count hasher heap)
          (redistribute { t.bare with growth } count hasher heap') :=
        redistribute_matches (t := { t with growth }) h hknows count hsame
      simp only [makeRoom, ho, ho', if_true, ha, ha']
      rcases hm.cases with
        ⟨_, room, later, later', hr, hr', hk⟩ | ⟨e, e', room, later, later', hr, hr', he, hk⟩
      · simp only [hr, hr']
        exact ⟨.ok (), rfl, hk⟩
      · have hback : ∀ growth, ({ room.bare with growth } : Table s.bare T A) =
            bare { room with growth } := fun _ => rfl
        simp only [hr, hr']
        exact ⟨.error he, hback _, hk⟩
  · have ho' : ¬s.bare.overflow = true := ho
    simp only [makeRoom, if_neg ho, if_neg ho']
    exact ⟨.ok (), rfl, h⟩

end

/-! ## Insertions -/

theorem before_makeRoom (t : Table s T A) (hasher : Ref → T → UInt64) (heap : Heap A) :
    heap.Before (t.makeRoom hasher heap).2.2 := by
  by_cases ho : s.overflow = true
  · rcases ha : t.growth.advise t.bucketCount t.size 1 with ⟨_ | count, growth⟩
    · simp only [makeRoom, ho, if_true, ha]
      exact .refl heap
    · rw [makeRoom_heap ho ha]
      exact (HeapRow.before_alloc Shape.headLayout t.delegate count heap).trans
        (before_redistribute { t with growth } count hasher heap)
  · simp only [makeRoom, if_neg ho]
    exact .refl heap

theorem before_insertFront (t : Table s T A) (hash : UInt64) (entry : T)
    (hasher : Ref → T → UInt64) (heap : Heap A) :
    (t.makeRoom hasher heap).2.2.Before (t.insertFront hash entry hasher heap).2.2 := by
  unfold insertFront
  rcases t.makeRoom hasher heap with ⟨_ | _, room, later⟩
  · exact .refl later
  · simp only [linkFront_heap]
    exact room.nodes.before_alloc later

theorem before_insertBeside (t : Table s T A) (hash : UInt64) (entry : T) (test : T → Bool)
    (hasher : Ref → T → UInt64) (heap : Heap A) :
    (t.makeRoom hasher heap).2.2.Before (t.insertBeside hash entry test hasher heap).2.2 := by
  unfold insertBeside
  rcases t.makeRoom hasher heap with ⟨_ | _, room, later⟩
  · exact .refl later
  · simp only
    split
    · rw [linkAfter_heap]
      exact room.nodes.before_alloc later
    · rw [linkFront_heap]
      exact room.nodes.before_alloc later

section

variable (h : heap.Alike s heap') (hknows : t.Knows hasher t.refs) {hash : UInt64} {entry : T}
include h hknows

theorem insertFront_matches
    (hsame : (t.insertFront hash entry hasher heap).2.2.SameDecisions
      (t.bare.insertFront hash entry hasher heap').2.2) :
    Matches s (AlikeAnswer s) bare (t.insertFront hash entry hasher heap)
      (t.bare.insertFront hash entry hasher heap') := by
  have hroom := makeRoom_matches h hknows
    (hsame.of_later (t.before_insertFront hash entry hasher heap)
      (t.bare.before_insertFront hash entry hasher heap'))
  revert hsame
  unfold insertFront
  rcases hroom.cases with
    ⟨_, room, later, later', ho, ho', hk⟩ | ⟨e, e', room, later, later', ho, ho', he, hk⟩
  · simp only [ho, ho', linkFront_heap]
    exact fun hsame => linkFront_matches hk hsame hash entry
  · simp only [ho, ho']
    exact fun _ => ⟨.error he, rfl, hk⟩

theorem insertBeside_matches {test : T → Bool}
    (hsees : ∀ room later, t.makeRoom hasher heap = (.ok (), room, later) → room.Sees hash test)
    (hsame : (t.insertBeside hash entry test hasher heap).2.2.SameDecisions
      (t.bare.insertBeside hash entry test hasher heap').2.2) :
    Matches s (AlikeAnswer s) bare (t.insertBeside hash entry test hasher heap)
      (t.bare.insertBeside hash entry test hasher heap') := by
  have hroom := makeRoom_matches h hknows
    (hsame.of_later (t.before_insertBeside hash entry test hasher heap)
      (t.bare.before_insertBeside hash entry test hasher heap'))
  revert hsame
  unfold insertBeside
  rcases hroom.cases with
    ⟨_, room, later, later', ho, ho', hk⟩ | ⟨e, e', room, later, later', ho, ho', he, hk⟩
  · simp only [ho, ho', (hsees room later ho).find?_bare]
    split
    · rw [linkAfter_heap, linkAfter_heap]
      exact fun hsame => linkAfter_matches hk hsame _ hash entry
    · rw [linkFront_heap, linkFront_heap]
      exact fun hsame => linkFront_matches hk hsame hash entry
  · simp only [ho, ho']
    exact fun _ => ⟨.error he, rfl, hk⟩

end

/-! ## Copies -/

theorem before_copyNode {t : Table s T A} {i : Nat} {q : Ref} {qs : List Ref} {n : Node T}
    (hn : t.node? q = some n)
    (hrest : ∀ (tail : Option Ref) (copy : Table s T A) (heap : Heap A),
      heap.Before (copyChain t i qs tail copy heap).2.2)
    (tail : Option Ref) (copy : Table s T A) (heap : Heap A) :
    (copy.newNode { n with next := none } heap).2.2.Before
      (copyChain t i (q :: qs) tail copy heap).2.2 := by
  simp only [copyChain, hn]
  rcases copy.newNode { n with next := none } heap with ⟨_ | p, copy', later⟩
  · exact .refl later
  · exact hrest _ _ later

theorem before_copyChain (t : Table s T A) (i : Nat) (qs : List Ref) (tail : Option Ref)
    (copy : Table s T A) (heap : Heap A) :
    heap.Before (copyChain t i qs tail copy heap).2.2 := by
  induction qs generalizing tail copy heap with
  | nil => exact .refl heap
  | cons q qs ih =>
    cases hn : t.node? q with
    | none =>
      simp only [copyChain, hn]
      exact ih tail copy heap
    | some n =>
      refine Heap.Before.trans ?_ (before_copyNode hn ih tail copy heap)
      rw [newNode_heap]
      exact copy.nodes.before_alloc heap

theorem before_copyRest {t : Table s T A} {is : List Nat}
    (hrest : ∀ (copy : Table s T A) (heap : Heap A),
      heap.Before (t.copyChains is copy heap).2.2)
    (i : Nat) (copy : Table s T A) (heap : Heap A) :
    (copyChain t i (t.chain i) none copy heap).2.2.Before
      (t.copyChains (i :: is) copy heap).2.2 := by
  unfold copyChains
  rcases copyChain t i (t.chain i) none copy heap with ⟨_ | _, copy', later⟩
  · exact .refl later
  · exact hrest copy' later

theorem before_copyChains (t : Table s T A) (is : List Nat) (copy : Table s T A)
    (heap : Heap A) : heap.Before (t.copyChains is copy heap).2.2 := by
  induction is generalizing copy heap with
  | nil => exact .refl heap
  | cons i is ih =>
    exact (before_copyChain t i (t.chain i) none copy heap).trans (before_copyRest ih i copy heap)

theorem before_copy (t : Table s T A) {base : Table s T A} {later : Heap A}
    (hbase : t.copyBase heap = (.ok base, later)) :
    (t.copyChains (List.range t.bucketCount) base later).2.2.Before (t.copy heap).2 := by
  simp only [copy, hbase]
  rcases t.copyChains (List.range t.bucketCount) base later with ⟨_ | _, copy', last⟩
  · exact (copy'.takesBack_dispose last).before
  · exact .refl last

theorem before_copyBase (t : Table s T A) (heap : Heap A) :
    (t.copyBase heap).2.Before (t.copy heap).2 := by
  rcases hbase : t.copyBase heap with ⟨_ | base, later⟩
  · simp only [copy, hbase]
    exact .refl later
  · exact (before_copyChains t (List.range t.bucketCount) base later).trans (before_copy t hbase)

section

variable {copy : Table s T A} (h : heap.Alike s heap')
include h

theorem copyChain_matches (t : Table s T A) (i : Nat) (qs : List Ref) (tail : Option Ref)
    (hsame : (copyChain t i qs tail copy heap).2.2.SameDecisions
      (copyChain t.bare i qs tail copy.bare heap').2.2) :
    Matches s (AlikeAnswer s) bare (copyChain t i qs tail copy heap)
      (copyChain t.bare i qs tail copy.bare heap') := by
  induction qs generalizing tail copy heap heap' with
  | nil => exact ⟨.ok (), rfl, h⟩
  | cons q qs ih =>
    have hbare := t.node?_bare q
    cases hn : t.node? q with
    | none =>
      rw [hn, Option.map_none] at hbare
      simp only [copyChain, hn, hbare] at hsame ⊢
      exact ih h tail hsame
    | some n =>
      rw [hn, Option.map_some] at hbare
      have hmid := hsame.of_later (before_copyNode hn (before_copyChain t i qs) tail copy heap)
        (before_copyNode hbare (before_copyChain t.bare i qs) tail copy.bare heap')
      rw [newNode_heap, newNode_heap] at hmid
      have hm : Matches s (AlikeAnswer s) bare (copy.newNode { n with next := none } heap)
          (copy.bare.newNode { n.bare with next := none } heap') :=
        newNode_matches h hmid { n with next := none }
      simp only [copyChain, hn, hbare] at hsame ⊢
      rcases hm.cases with
        ⟨p, copy', later, later', ho, ho', hk⟩ | ⟨e, e', copy', later, later', ho, ho', he, hk⟩
      · simp only [ho, ho'] at hsame ⊢
        cases tail with
        | none => exact ih hk (some p) hsame
        | some last =>
          simp only [setNext_bare] at hsame ⊢
          exact ih hk (some p) hsame
      · simp only [ho, ho']
        exact ⟨.error he, rfl, hk⟩

theorem copyChains_matches (t : Table s T A) (is : List Nat)
    (hsame : (t.copyChains is copy heap).2.2.SameDecisions
      (t.bare.copyChains is copy.bare heap').2.2) :
    Matches s (AlikeAnswer s) bare (t.copyChains is copy heap)
      (t.bare.copyChains is copy.bare heap') := by
  induction is generalizing copy heap heap' with
  | nil => exact ⟨.ok (), rfl, h⟩
  | cons i is ih =>
    have hchain := t.chain_bare i
    have hmid := hsame.of_later (before_copyRest (before_copyChains t is) i copy heap)
      (before_copyRest (before_copyChains t.bare is) i copy.bare heap')
    rw [hchain] at hmid
    unfold copyChains at hsame ⊢
    rw [hchain] at *
    rcases (copyChain_matches h t i (t.chain i) none hmid).cases with
      ⟨_, copy', later, later', ho, ho', hk⟩ | ⟨e, e', copy', later, later', ho, ho', he, hk⟩
    · simp only [ho, ho'] at hsame ⊢
      exact ih hk hsame
    · simp only [ho, ho']
      exact ⟨.error he, rfl, hk⟩

omit h in
/-- The array is all that is requested. -/
theorem copyBase_heap (t : Table s T A) (hg : t.buckets.isGrown = true) (heap : Heap A) :
    (t.copyBase heap).2 =
      (HeapRow.alloc (P := Ref) Shape.headLayout t.bucketCount t.delegate heap).2 := by
  simp only [copyBase, hg, if_true]
  rcases HeapRow.alloc Shape.headLayout t.bucketCount t.delegate heap with ⟨_ | _, _⟩ <;> rfl

theorem copyBase_alike (t : Table s T A)
    (hsame : (t.copyBase heap).2.SameDecisions (t.bare.copyBase heap').2) :
    AlikeOutcome s ((t.copyBase heap).1.map bare, (t.copyBase heap).2)
      (t.bare.copyBase heap') := by
  have hnew : ∀ buckets, ({ (new t.delegate : Table s.bare T A) with
      buckets, growth := t.growth } : Table s.bare T A) =
        bare { (new t.delegate : Table s T A) with buckets, growth := t.growth } := by
    intro buckets
    rw [← bare_new]
    rfl
  by_cases hg : t.buckets.isGrown = true
  · have hg' : t.bare.buckets.isGrown = true := hg
    rw [copyBase_heap t hg, copyBase_heap t.bare hg'] at hsame
    obtain ⟨ha, hk⟩ := HeapRow.alloc_alike Shape.headLayout t.delegate h t.bucketCount hsame
    have hdelegate : t.bare.delegate = t.delegate := rfl
    simp only [copyBase, hg, hg', if_true, hdelegate, bucketCount_bare]
    generalize HeapRow.alloc Shape.headLayout t.bucketCount t.delegate heap = out,
      HeapRow.alloc Shape.headLayout t.bucketCount t.delegate heap' = out' at ha hk ⊢
    obtain ⟨_ | fresh, later⟩ := out <;> obtain ⟨_ | fresh', later'⟩ := out' <;> cases ha
    · next he => exact ⟨.error he, hk⟩
    · exact ⟨.ok_of_eq (hnew _), hk⟩
  · have hg' : ¬t.bare.buckets.isGrown = true := hg
    simp only [copyBase, if_neg hg, if_neg hg']
    exact ⟨.ok_of_eq (hnew _), h⟩

theorem copy_alike (t : Table s T A)
    (hsame : (t.copy heap).2.SameDecisions (t.bare.copy heap').2) :
    AlikeOutcome s ((t.copy heap).1.map bare, (t.copy heap).2) (t.bare.copy heap') := by
  have hbase := copyBase_alike h t
    (hsame.of_later (before_copyBase t heap) (before_copyBase t.bare heap'))
  rcases hbase.cases with
    ⟨base, later, later', ho, ho', hk⟩ | ⟨e, e', later, later', ho, ho', he, hk⟩
  · have hchains := copyChains_matches hk t (List.range t.bucketCount)
      (hsame.of_later (before_copy t ho) (before_copy t.bare ho'))
    simp only [copy, ho, ho', bucketCount_bare]
    rcases hchains.cases with
      ⟨_, copy', last, last', hc, hc', hk'⟩ | ⟨e, e', copy', last, last', hc, hc', he, hk'⟩
    · simp only [hc, hc']
      exact ⟨.ok _, hk'⟩
    · simp only [hc, hc']
      exact ⟨.error he, copy'.dispose_alike hk'⟩
  · simp only [copy, ho, ho']
    exact ⟨.error he, hk⟩

end

end Table

end ArenaHash
