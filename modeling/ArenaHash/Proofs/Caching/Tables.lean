import ArenaHash.Proofs.Caching.Slots
import ArenaHash.Proofs.Table.Removals
import ArenaHash.Table.Copy
import ArenaHash.Table.Cursor

/-!
# Tables without hashes

`t.bare` is the table without the hashes that its nodes keep. What does not look at hashes reads the
same in both, and removals leave tables that differ in them only. A lookup comes to the same if the
stored hashes hide no match from it (`Sees`).
-/

namespace ArenaHash.Table

variable {s : Shape} {T A : Type}

def bare (t : Table s T A) : Table s.bare T A where
  nodes := t.nodes.bare
  buckets := t.buckets
  size := t.size
  growth := t.growth

theorem bare_new (delegate : A) : (new delegate : Table s T A).bare = new delegate := by
  unfold new bare
  rw [Pool.bare_new]
  rfl

section Reading

variable (t : Table s T A)

@[simp] theorem bucketCount_bare : t.bare.bucketCount = t.bucketCount := rfl

@[simp] theorem bucketOf_bare (hash : UInt64) : t.bare.bucketOf hash = t.bucketOf hash := rfl

@[simp] theorem node?_bare (q : Ref) : t.bare.node? q = (t.node? q).map Node.bare :=
  t.nodes.read_bare q

@[simp] theorem entryAt?_bare (q : Ref) : t.bare.entryAt? q = t.entryAt? q := by
  rw [entryAt?, entryAt?, node?_bare, Option.map_map]
  rfl

@[simp] theorem chain_bare (i : Nat) : t.bare.chain i = t.chain i :=
  t.nodes.follow_bare t.size (t.buckets.head i)

@[simp] theorem refs_bare : t.bare.refs = t.refs :=
  List.flatMap_congr fun i _ => t.chain_bare i

@[simp] theorem toList_bare : t.bare.toList = t.toList := by
  unfold toList
  rw [refs_bare]
  exact List.filterMap_congr fun q _ => t.entryAt?_bare q

@[simp] theorem step?_bare (cursor : Cursor) : cursor.step? t.bare = cursor.step? t := by
  have hnext : t.bare.nodes.next = t.nodes.next := funext t.nodes.next_bare
  unfold Cursor.step?
  rw [hnext]

@[simp] theorem setHead_bare (i : Nat) (head : Option Ref) :
    t.bare.setHead i head = (t.setHead i head).bare := rfl

@[simp] theorem setNext_bare (q : Ref) (next : Option Ref) :
    t.bare.setNext q next = (t.setNext q next).bare := by
  have hm := t.nodes.bare_modify q (f := fun n => { n with next }) fun _ => rfl
  exact congrArg (fun nodes => ({ t.bare with nodes } : Table s.bare T A)) hm.symm

@[simp] theorem setEntry_bare (q : Ref) (entry : T) :
    t.bare.setEntry q entry = (t.setEntry q entry).bare := by
  have hm := t.nodes.bare_modify q (f := fun n => { n with entry }) fun _ => rfl
  exact congrArg (fun nodes => ({ t.bare with nodes } : Table s.bare T A)) hm.symm

@[simp] theorem setMaxLoad_bare (maxLoad : Binary32) :
    t.bare.setMaxLoad maxLoad = (t.setMaxLoad maxLoad).bare := by
  have hoverflow : s.bare.overflow = s.overflow := rfl
  have hgrowth : t.bare.growth = t.growth := rfl
  unfold setMaxLoad
  rw [hoverflow, hgrowth, bucketCount_bare]
  split
  · split <;> rfl
  · rfl

@[simp] theorem setDelegate_bare [Allocator A] (delegate : A) :
    t.bare.setDelegate delegate =
      ((t.setDelegate delegate).1, (t.setDelegate delegate).2.bare) := by
  have hnodes := t.nodes.setDelegate_bare delegate
  have hbuckets : t.bare.buckets = t.buckets := rfl
  have hdelegate : t.bare.delegate = t.delegate := rfl
  have hpool : t.bare.nodes = t.nodes.bare := rfl
  unfold setDelegate
  rw [hbuckets, hdelegate, hpool, hnodes]
  split <;> rfl

end Reading

/-! ## Lookups -/

/-- Stored hashes hide no match from a lookup. -/
def Sees (t : Table s T A) (hash : UInt64) (test : T → Bool) : Prop :=
  ∀ i, ∀ q ∈ t.chain i, t.bare.matchesAt hash test q = t.matchesAt hash test q

section Lookup

variable {t : Table s T A} {hash : UInt64} {test : T → Bool} (h : t.Sees hash test)
include h

theorem Sees.find?_bare : t.bare.find? hash test = t.find? hash test := by
  rw [find?, find?, chain_bare, bucketOf_bare]
  exact List.find?_congr (h _)

theorem Sees.count_bare : t.bare.count hash test = t.count hash test := by
  rw [count, count, chain_bare, bucketOf_bare]
  exact List.countP_congr fun q hq => by rw [h _ q hq]

theorem Sees.equalRun_bare : t.bare.equalRun hash test = t.equalRun hash test := by
  rw [equalRun, equalRun, chain_bare, bucketOf_bare]
  have hdrop : (t.chain (t.bucketOf hash)).dropWhile (!t.bare.matchesAt hash test ·) =
      (t.chain (t.bucketOf hash)).dropWhile (!t.matchesAt hash test ·) :=
    dropWhile_congr fun q hq => by rw [h _ q hq]
  rw [hdrop]
  exact takeWhile_congr fun q hq => h _ q ((List.dropWhile_sublist _).mem hq)

end Lookup

/-- A self-check that succeeds does so without the stored hashes. -/
theorem check_bare {t : Table s T A} {hasher : Ref → T → UInt64} (h : t.check hasher = true) :
    t.bare.check hasher = true := by
  have hplaced : ∀ i q, t.wellPlaced hasher i q = true → t.bare.wellPlaced hasher i q = true := by
    intro i q hq
    unfold wellPlaced at hq ⊢
    rw [node?_bare]
    cases hn : t.node? q with
    | none =>
      rw [hn] at hq
      cases hq
    | some n =>
      rw [hn] at hq
      exact (Bool.and_eq_true_iff.mp hq).2
  have hfollow : ∀ limit head, t.bare.nodes.follow limit head = t.nodes.follow limit head :=
    t.nodes.follow_bare
  have hsize : t.bare.size = t.size := rfl
  have hbuckets : t.bare.buckets = t.buckets := rfl
  have hlive : t.bare.nodes.live = t.nodes.live := rfl
  unfold check at h ⊢
  simp only [hfollow, hsize, hbuckets, hlive, bucketCount_bare, Bool.and_eq_true] at h ⊢
  obtain ⟨⟨⟨hsentinel, hchains⟩, hlength⟩, hcounts⟩ := h
  refine ⟨⟨⟨hsentinel, List.all_eq_true.mpr fun chain hc => ?_⟩, hlength⟩, hcounts⟩
  have hchain := List.all_eq_true.mp (List.all_eq_true.mp hchains chain hc)
  exact List.all_eq_true.mpr fun q hq => hplaced _ q (hchain q hq)

/-! ## Removals -/

section Removal

variable [Allocator A] {heap heap' : Heap A} (h : heap.Alike s heap') (t : Table s T A)
include h

theorem freeNode_follows (q : Ref) :
    Follows s bare (t.freeNode q heap) (t.bare.freeNode q heap') := by
  obtain ⟨hnodes, hk⟩ := t.nodes.free_follows h q
  have hstate := congrArg
    (fun nodes => ({ t.bare with nodes, size := t.size - 1 } : Table s.bare T A)) hnodes
  exact ⟨hstate, hk⟩

theorem unlink_follows (i : Nat) (prev : Option Ref) (q : Ref) :
    Follows s bare (t.unlink i prev q heap) (t.bare.unlink i prev q heap') := by
  have hnext : t.bare.nodes.next q = t.nodes.next q := t.nodes.next_bare q
  unfold unlink
  simp only [hnext]
  cases prev with
  | none => exact (t.setHead i (t.nodes.next q)).freeNode_follows h q
  | some p =>
    simp only [setNext_bare]
    exact (t.setNext p (t.nodes.next q)).freeNode_follows h q

theorem erase_matches {hash : UInt64} {test : T → Bool} (hsees : t.Sees hash test) :
    Matches s Eq bare (t.erase hash test heap) (t.bare.erase hash test heap') := by
  unfold erase
  simp only [bucketOf_bare, chain_bare, seek_congr (hsees (t.bucketOf hash))]
  split
  · exact ⟨(t.entryAt?_bare _).symm, t.unlink_follows h _ _ _⟩
  · exact ⟨rfl, rfl, h⟩

theorem filterChain_matches {σ : Type} (keep : σ → T → Bool × T × σ) (i : Nat) (qs : List Ref)
    (prev : Option Ref) (state : σ) :
    Matches s Eq bare (filterChain keep i qs prev state t heap)
      (filterChain keep i qs prev state t.bare heap') := by
  induction qs generalizing prev state t heap heap' with
  | nil => exact ⟨rfl, rfl, h⟩
  | cons q qs ih =>
    unfold filterChain
    simp only [entryAt?_bare, setEntry_bare]
    cases t.entryAt? q with
    | none => exact ih h t prev state
    | some entry =>
      simp only
      rcases keep state entry with ⟨kept, entry', state'⟩
      simp only
      split
      · exact ih h _ _ _
      · obtain ⟨hstate, hk⟩ := (t.setEntry q entry').unlink_follows h i prev q
        rw [hstate]
        exact ih hk _ _ _

theorem filter_matches {σ : Type} (keep : σ → T → Bool × T × σ) (state : σ) :
    Matches s Eq bare (t.filter keep state heap) (t.bare.filter keep state heap') := by
  unfold filter
  rw [bucketCount_bare]
  apply List.foldl_rel (r := Matches s Eq bare)
  · exact ⟨rfl, rfl, h⟩
  · rintro i - ⟨state, t, heap⟩ ⟨state', t', heap'⟩ ⟨rfl, rfl, hk⟩
    simp only [chain_bare]
    exact t.filterChain_matches hk keep i _ _ _

theorem pop_matches (position : Nat) :
    (t.bare.pop position heap').1 = (t.pop position heap).1 ∧
      Matches s Eq bare (t.pop position heap).2 (t.bare.pop position heap').2 := by
  have hbuckets : t.bare.buckets = t.buckets := rfl
  have hnext : t.bare.nodes.next = t.nodes.next := funext t.nodes.next_bare
  unfold pop
  simp only [hbuckets, hnext, bucketCount_bare, entryAt?_bare, setHead_bare]
  split
  · exact ⟨rfl, rfl, (t.setHead _ _).freeNode_follows h _⟩
  · exact ⟨rfl, rfl, rfl, h⟩

theorem clearBucket_follows (i : Nat) :
    Follows s bare (t.clearBucket i heap) (t.bare.clearBucket i heap') := by
  unfold clearBucket
  rw [chain_bare]
  apply List.foldl_rel (r := Follows s bare)
  · exact ⟨rfl, h⟩
  · rintro q - ⟨t, heap⟩ ⟨t', heap'⟩ ⟨rfl, hk⟩
    exact t.freeNode_follows hk q

theorem clear_follows : Follows s bare (t.clear heap) (t.bare.clear heap') := by
  unfold clear
  rw [bucketCount_bare]
  apply List.foldl_rel (r := Follows s bare)
  · exact ⟨rfl, h⟩
  · rintro i - ⟨t, heap⟩ ⟨t', heap'⟩ ⟨rfl, hk⟩
    exact t.clearBucket_follows hk i

omit [Allocator A] in
theorem shrink_follows : Follows s bare (t.shrink heap) (t.bare.shrink heap') :=
  ⟨rfl, HeapRow.release?_alike Shape.headLayout t.delegate t.buckets.grown h⟩

theorem dispose_alike : (t.dispose heap).Alike s (t.bare.dispose heap') := by
  obtain ⟨hstate, hk⟩ := t.clear_follows h
  unfold dispose
  simp only [hstate]
  exact ((t.clear heap).1.shrink_follows hk).heap

theorem renew_follows : Follows s bare (t.renew heap) (t.bare.renew heap') := by
  obtain ⟨hstate, hk⟩ := t.clear_follows h
  unfold renew
  simp only [hstate]
  exact ⟨rfl, ((t.clear heap).1.shrink_follows hk).heap⟩

omit [Allocator A] in
theorem abandon_follows : Follows s bare (t.abandon heap) (t.bare.abandon heap') :=
  ⟨rfl, (t.shrink_follows h).heap⟩

end Removal

end ArenaHash.Table
