import ArenaHash.Proofs.Container.Resizing
import ArenaHash.Proofs.Growth.Load

/-!
# Load at the default load factor

`t.Carried`: a table has as many buckets as entries, as long as load factors count the buckets
exactly. At the default load factor one more entry keeps it so, whether the array that it asks for
is granted or not: an array is asked for only where every bucket is taken (`Coherent.due?_eq`).
`t.Requested` says what an insertion requests: the array that is due, if one is, and then a node.
-/

namespace ArenaHash

namespace Binary32

/-- A finite number is at most one times a larger one. -/
theorem AtMost.div_le_one {x : Nat} {b : Binary32} (h : AtMost (finite false x) b)
    (hb : AtMost (Binary32.ofNat 1) b) : AtMost (finite false x / b) (Binary32.ofNat 1) := by
  rw [ofNat_eq (by decide), Nat.one_mul] at hb ⊢
  unfold AtMost at h
  split at h
  · next x y heq =>
    cases heq
    have hy : 0 < y := Nat.lt_of_lt_of_le Binary32.one_pos hb
    have hself := ofRatio_mul (n := 1) (by decide) hy
    rw [Nat.one_mul] at hself
    rw [finite_div x hy, ← hself, Nat.mul_comm one]
    exact .ofRatio hy (Nat.mul_le_mul_right one h)
  · exact Nat.zero_le one
  · next heq => cases heq
  · exact h.elim

end Binary32

namespace Table

variable {s : Shape} {T A : Type} {t t' t'' : Table s T A}

/-- No more entries than buckets, as long as load factors count these exactly. -/
def Carried (t : Table s T A) : Prop := t.size ≤ t.bucketCount ∨ 2 ^ 24 ≤ t.bucketCount

/-- Exactly a table whose buckets are all taken asks for more of them. -/
theorem Coherent.due?_eq (hc : t.Coherent) (ho : s.overflow = true) (hb : s.buckets ≤ 2 ^ 24)
    (hload : t.growth.maxLoad = Growth.defaultLoad) (h2 : 2 ≤ t.bucketCount)
    (hsize : t.size ≤ t.bucketCount) (hexact : t.size ≤ 2 ^ 24) :
    t.due? = if t.size = t.bucketCount ∧ t.bucketCount < 2 ^ 24 then
      some (primeAtLeast (2 * t.bucketCount + 1)) else none := by
  rw [due?, if_pos ho]
  rcases Nat.lt_or_ge (2 ^ 24) t.bucketCount with hlarge | hsmall
  · rcases hc.array with ⟨-, hcount⟩ | ⟨-, hprime, -⟩
    · omega
    · rw [Growth.advise_large hload hc.limit hprime hlarge hexact, if_neg (by omega)]
  · exact Growth.advise_defaultLoad hload hc.limit h2 hsmall hsize

theorem loadFactor_atMost (h2 : 2 ≤ t.bucketCount) (hsize : t.size ≤ t.bucketCount)
    (hexact : t.size ≤ 2 ^ 24) : Binary32.AtMost t.loadFactor Growth.defaultLoad := by
  have hle := Binary32.AtMost.ofNat hsize
  rw [Binary32.ofNat_eq hexact] at hle
  rw [loadFactor, Binary32.ofNat_eq hexact]
  exact hle.div_le_one (.ofNat (Nat.le_of_succ_le h2))

variable [Allocator A] {heap heap' later : Heap A} {rows : Rows T} {others : List (Loan A)}
  {hasher : Ref → T → UInt64}

/-! ## Sizes -/

theorem size_newNode_le (t : Table s T A) (node : Node T) (heap : Heap A) :
    (t.newNode node heap).2.1.size ≤ t.size + 1 := by
  unfold newNode
  split
  · exact Nat.le_succ _
  · exact Nat.le_refl _

theorem size_linkFront_le (t : Table s T A) (hash : UInt64) (entry : T) (heap : Heap A) :
    (t.linkFront hash entry heap).2.1.size ≤ t.size + 1 := by
  have hnew := t.size_newNode_le ⟨entry, t.buckets.head (t.bucketOf hash), s.caching.keep hash⟩ heap
  unfold linkFront
  simp only
  split <;> next hr => rw [hr] at hnew; exact hnew

theorem size_linkAfter_le (t : Table s T A) (first : Ref) (hash : UInt64) (entry : T)
    (heap : Heap A) : (t.linkAfter first hash entry heap).2.1.size ≤ t.size + 1 := by
  have hnew := t.size_newNode_le ⟨entry, t.nodes.next first, s.caching.keep hash⟩ heap
  unfold linkAfter
  split <;> next hr => rw [hr] at hnew; exact hnew

/-! ## Insertions -/

/-- Either nothing is added, or one entry at most after room was made. -/
inductive Gains (t : Table s T A) (hasher : Ref → T → UInt64) (heap : Heap A)
    (t' : Table s T A) : Prop where
  | nothing (plan : t.SamePlan t') (size : t'.size ≤ t.size)
  | entry {room : Table s T A} {later : Heap A}
    (made : t.makeRoom hasher heap = (.ok (), room, later)) (plan : room.SamePlan t')
    (size : t'.size ≤ room.size + 1)

theorem Gains.trans (h : t.Gains hasher heap t') (hplan : t'.SamePlan t'')
    (hsize : t''.size ≤ t'.size) : t.Gains hasher heap t'' := by
  cases h with
  | nothing plan size => exact .nothing (plan.trans hplan) (hsize.trans size)
  | entry made plan size => exact .entry made (plan.trans hplan) (hsize.trans size)

theorem Gains.insertFront (ht : t.Tuned) (h : t.Stores heap rows [] others) (hash : UInt64)
    (entry : T) (hasher : Ref → T → UInt64) :
    t.Gains hasher heap (t.insertFront hash entry hasher heap).2.1 := by
  have hroom := ht.room h hasher
  unfold Table.insertFront
  rcases hm : t.makeRoom hasher heap with ⟨e | _, room, later⟩
  · rw [hm] at hroom
    cases hroom
    exact .nothing (.refl t) (Nat.le_refl _)
  · exact .entry hm (.linkFront room hash entry later) (room.size_linkFront_le hash entry later)

theorem Gains.insertBeside (ht : t.Tuned) (h : t.Stores heap rows [] others) (hash : UInt64)
    (entry : T) (test : T → Bool) (hasher : Ref → T → UInt64) :
    t.Gains hasher heap (t.insertBeside hash entry test hasher heap).2.1 := by
  have hroom := ht.room h hasher
  unfold Table.insertBeside
  rcases hm : t.makeRoom hasher heap with ⟨e | _, room, later⟩
  · rw [hm] at hroom
    cases hroom
    exact .nothing (.refl t) (Nat.le_refl _)
  · simp only
    split
    · exact .entry hm (.linkAfter room _ hash entry later)
        (room.size_linkAfter_le _ hash entry later)
    · exact .entry hm (.linkFront room hash entry later) (room.size_linkFront_le hash entry later)

/-- One more entry is carried. -/
theorem Carried.gains (hcarried : t.Carried) (hc : t.Coherent) (ho : s.overflow = true)
    (hb : s.buckets ≤ 2 ^ 24) (hload : t.growth.maxLoad = Growth.defaultLoad)
    (h : t.Stores heap rows [] others) (hg : t.Gains hasher heap t') : t'.Carried := by
  have h2 := h.two_le_bucketCount
  unfold Carried at hcarried ⊢
  cases hg with
  | nothing plan size =>
    rw [plan.bucketCount]
    omega
  | @entry room later made plan size =>
    have hroom := hc.tuned.room h hasher
    have hgrows : Resizing.grow.Allows t room := by
      have hallows := hroom.allows
      rwa [made] at hallows
    rw [plan.bucketCount]
    rcases Nat.lt_or_ge t.bucketCount (2 ^ 24) with hexact | hlarge
    · have hsize : t.size ≤ t.bucketCount := by omega
      have hdue := hc.due?_eq ho hb hload h2 hsize (by omega)
      rw [made] at hroom
      cases hroom with
      | enough due =>
        rw [due] at hdue
        split at hdue
        · cases hdue
        · omega
      | grown due redistributed =>
        rw [due] at hdue
        split at hdue
        · next hfull =>
          cases hdue
          have hgrown : 2 * t.bucketCount + 1 ≤ primeAtLeast (2 * t.bucketCount + 1) :=
            le_primeAtLeast (by unfold largestPrime; omega)
          rw [redistributed.bucketCount, redistributed.size] at *
          omega
        · cases hdue
    · refine .inr (hlarge.trans ?_)
      rcases hgrows with ⟨-, hcount⟩ | ⟨-, -, hlt⟩
      · exact hcount.ge
      · exact hlt.le

/-! ## Other changes -/

omit [Allocator A] in
theorem Carried.of_le (hcarried : t.Carried) (hcount : t'.bucketCount = t.bucketCount)
    (hsize : t'.size ≤ t.size) : t'.Carried := by
  unfold Carried at hcarried ⊢
  omega

omit [Allocator A] in
theorem Carried.releases (hcarried : t.Carried) (h : t.Releases heap t' heap') : t'.Carried :=
  hcarried.of_le h.bucketCount h.size_le

omit [Allocator A] in
theorem carried_of_empty (hsize : t.size = 0) : t.Carried :=
  .inl (hsize ▸ Nat.zero_le _)

theorem Stores.size_eq_zero (h : t.Stores heap (fun _ => []) [] others) : t.size = 0 := by
  rw [h.size_eq, Rows.all_nil]
  rfl

/-- A copy has as many entries as the table. -/
theorem Stores.size_copy (h : t.Stores heap rows [] others) {copy : Table s T A}
    (hr : t.copy heap = (.ok copy, heap')) : copy.size = t.size := by
  obtain ⟨rows', hcopy, -, hcount, hcontents, -⟩ := h.copy_ok hr
  have hlengths : ∀ i, (rows' i).length = (rows i).length := fun i => by
    simpa using congrArg List.length (hcontents i)
  rw [hcopy.size_eq, h.size_eq, hcount]
  simp only [Rows.all, List.append_nil, List.length_flatMap, hlengths]

/-! ## Requests -/

/-- What an insertion requests and returns, given the array that it asks for, if any. -/
inductive Requested (t : Table s T A) (heap : Heap A) : (array : Option Nat) → Heap A → Prop where
  /-- There is a free slot, or none is needed. -/
  | nothing : Requested t heap none heap
  | node {answer : Except MemoryError Block} {later : Heap A}
    (node : heap.request t.delegate s.nodeLayout = (answer, later)) : Requested t heap none later
  | refused {count : Nat} {e : MemoryError} {later : Heap A}
    (array : heap.request t.delegate (Shape.headLayout.row (count + 1)) = (.error e, later)) :
    Requested t heap (some count) later
  | array {count : Nat} {block : Block} {later : Heap A}
    (array : heap.request t.delegate (Shape.headLayout.row (count + 1)) = (.ok block, later)) :
    Requested t heap (some count)
      (HeapRow.release? Shape.headLayout t.buckets.grown t.delegate later)
  | arrayAndNode {count : Nat} {block : Block} {later last : Heap A}
    {answer : Except MemoryError Block}
    (array : heap.request t.delegate (Shape.headLayout.row (count + 1)) = (.ok block, later))
    (node : (HeapRow.release? Shape.headLayout t.buckets.grown t.delegate later).request t.delegate
      s.nodeLayout = (answer, last)) : Requested t heap (some count) last

/-- The slot is all that is asked for besides the array. -/
theorem alloc_requests (nodes : Pool s.pool (Node T) A) (heap : Heap A) :
    (nodes.alloc heap).2.2 = heap ∨
      ∃ answer, heap.request nodes.delegate s.nodeLayout = (answer, (nodes.alloc heap).2.2) := by
  have hcases := Pool.allocation nodes heap
  generalize nodes.alloc heap = out at hcases ⊢
  cases hcases with
  | reuse | touch | full => exact .inl rfl
  | spill _ _ _ hr | refused _ _ _ hr => exact .inr ⟨_, hr⟩

theorem Room.requested_denied {room : Table s T A} {e : MemoryError}
    (hroom : Room t hasher heap (.error e, room, later)) : t.Requested heap t.due? later := by
  cases hroom with
  | refused due array => exact due ▸ .refused array

theorem Room.requested {room : Table s T A} (hroom : Room t hasher heap (.ok (), room, later)) :
    t.Requested heap t.due? (room.nodes.alloc later).2.2 := by
  have hslot := alloc_requests room.nodes later
  cases hroom with
  | enough due =>
    rw [due]
    rcases hslot with heq | ⟨answer, hnode⟩
    · rw [heq]
      exact .nothing
    · exact .node hnode
  | grown due redistributed array =>
    have hdelegate : room.nodes.delegate = t.delegate :=
      congrArg (fun books => books.2.2.2.2) redistributed.books
    rw [due]
    rcases hslot with heq | ⟨answer, hnode⟩
    · rw [heq]
      exact .array array
    · rw [hdelegate] at hnode
      exact .arrayAndNode array hnode

section

variable (ht : t.Tuned) (h : t.Stores heap rows [] others) (hash : UInt64) (entry : T)
  (hasher : Ref → T → UInt64)
include ht h

theorem requested_insertFront :
    t.Requested heap t.due? (t.insertFront hash entry hasher heap).2.2 := by
  have hroom := ht.room h hasher
  unfold insertFront
  rcases hm : t.makeRoom hasher heap with ⟨e | _, room, later⟩ <;> rw [hm] at hroom
  · exact hroom.requested_denied
  · rw [room.linkFront_heap]
    exact hroom.requested

theorem requested_insertBeside (test : T → Bool) :
    t.Requested heap t.due? (t.insertBeside hash entry test hasher heap).2.2 := by
  have hroom := ht.room h hasher
  unfold insertBeside
  rcases hm : t.makeRoom hasher heap with ⟨e | _, room, later⟩ <;> rw [hm] at hroom
  · exact hroom.requested_denied
  · simp only
    split
    · rw [room.linkAfter_heap]
      exact hroom.requested
    · rw [room.linkFront_heap]
      exact hroom.requested

end

end Table

variable {s : Table.Shape} {K V A S : Type} [BEq K] {ρ : Type}

/-- The array that a call asks for: that of one more entry, if it adds one. -/
def Map.Call.array? (H : Hashing S K) (m : Map s K V A S) : Map.Call K V ρ → Option Nat
  | .insert k _ | .insertIfNew k _ _ | .replace k _ =>
    if m.contains H k then none else m.table.due?
  | .count _ | .common _ => none

def Multimap.Call.array? (m : Multimap s K V A S) : Multimap.Call K V ρ → Option Nat
  | .insert _ _ => m.table.due?
  | .count _ | .equalRun _ | .eraseAll _ | .common _ => none

namespace Keyed

variable [Allocator A] {c c' : Keyed s K V A S} {heap heap' : Heap A} {rows : Rows (K × V)}
  {others : List (Loan A)} (H : Hashing S K) (h : c.table.Stores heap rows [] others)

section

variable (k : K) (v : V)
include h

/-- An insertion into a map is an addition unless the key is present. -/
theorem insert_cases :
    c.contains H k = true ∧ c.table.SamePlan (Map.insert H c k v heap).2.1.table ∧
        (Map.insert H c k v heap).2.1.size = c.size ∧ (Map.insert H c k v heap).2.2 = heap ∨
      c.contains H k = false ∧
        (Map.insert H c k v heap).2 = (Map.add H c k v heap).2 := by
  rcases lookup_cases H h k with ⟨-, hf, -⟩ | ⟨pre, cell, post, -, -, -, hf, hl⟩
  · have hk : c.contains H k = false := by rw [contains, hf]; rfl
    exact .inr ⟨hk, by rw [insert_of_absent hk]⟩
  · rw [contains, hf, Map.insert, hl]
    exact .inl ⟨rfl, .setEntry _ _ _, rfl, rfl⟩

theorem replace_cases :
    c.contains H k = true ∧ c.table.SamePlan (Map.replace H c k v heap).2.1.table ∧
        (Map.replace H c k v heap).2.1.size = c.size ∧ (Map.replace H c k v heap).2.2 = heap ∨
      c.contains H k = false ∧
        (Map.replace H c k v heap).2 = (Map.add H c k v heap).2 := by
  rcases lookup_cases H h k with ⟨-, hf, -⟩ | ⟨pre, cell, post, -, -, -, hf, hl⟩
  · have hk : c.contains H k = false := by rw [contains, hf]; rfl
    exact .inr ⟨hk, by rw [replace_of_absent hk]⟩
  · rw [contains, hf, Map.replace, hl]
    exact .inl ⟨rfl, .setEntry _ _ _, rfl, rfl⟩

theorem insertIfNew_cases :
    c.contains H k = true ∧ (Map.insertIfNew H c k v heap).2 = (c, heap) ∨
      c.contains H k = false ∧
        (Map.insertIfNew H c k v heap).2 = (Map.add H c k v heap).2 := by
  rcases lookup_cases H h k with ⟨-, hf, -⟩ | ⟨pre, cell, post, -, -, -, hf, -⟩
  · have hk : c.contains H k = false := by rw [contains, hf]; rfl
    exact .inr ⟨hk, by rw [insertIfNew_of_absent hk]⟩
  · rw [contains, hf, Map.insertIfNew, hf]
    exact .inl ⟨rfl, rfl⟩

end

/-! ## Gains of calls -/

section

variable (ht : c.table.Tuned) (k : K) (v : V)
include h ht

omit [BEq K] in
theorem gains_add : c.table.Gains (c.hasher H) heap (Map.add H c k v heap).2.1.table :=
  .insertFront ht h _ _ _

theorem gains_insertBeside :
    c.table.Gains (c.hasher H) heap (Multimap.insert H c k v heap).2.1.table :=
  .insertBeside ht h _ _ _ _

theorem gains_insert : c.table.Gains (c.hasher H) heap (Map.insert H c k v heap).2.1.table := by
  rcases insert_cases H h k v with ⟨-, hplan, hsize, -⟩ | ⟨-, heq⟩
  · exact .nothing hplan hsize.le
  · rw [heq]
    exact gains_add H h ht k v

theorem gains_replace : c.table.Gains (c.hasher H) heap (Map.replace H c k v heap).2.1.table := by
  rcases replace_cases H h k v with ⟨-, hplan, hsize, -⟩ | ⟨-, heq⟩
  · exact .nothing hplan hsize.le
  · rw [heq]
    exact gains_add H h ht k v

theorem gains_insertIfNew :
    c.table.Gains (c.hasher H) heap (Map.insertIfNew H c k v heap).2.1.table := by
  rcases insertIfNew_cases H h k v with ⟨-, heq⟩ | ⟨-, heq⟩ <;> rw [heq]
  · exact .nothing (.refl _) (Nat.le_refl _)
  · exact gains_add H h ht k v

theorem gains_insertIfNew_call (g : V → V) :
    c.table.Gains (c.hasher H) heap (Map.perform H c heap (.insertIfNew k v g)).2.1.table := by
  have hgains := gains_insertIfNew H h ht k v
  unfold Map.perform
  simp only
  rcases hr : Map.insertIfNew H c k v heap with ⟨e | ⟨q, isNew⟩, m, later⟩ <;> rw [hr] at hgains
  · exact hgains
  · exact hgains.trans (samePlan_modifyAt m q g) (size_modifyAt m q g).le

end

/-! ## What calls keep -/

section

variable (hcarried : c.table.Carried)
include h hcarried

theorem perform_carried (call : Call K V ρ) : (perform H c heap call).2.1.table.Carried := by
  cases call with
  | renew => exact Table.carried_of_empty h.renew.size_eq_zero
  | abandon => exact Table.carried_of_empty h.abandon.size_eq_zero
  | setMaxLoad maxLoad =>
    refine hcarried.of_le (Table.bucketCount_setMaxLoad _ _) (Nat.le_of_eq ?_)
    simp only [perform, setMaxLoad, Table.setMaxLoad]
    split
    · split <;> rfl
    · rfl
  | _ => exact hcarried.releases (perform_releases H c heap rfl)

variable (hc : c.table.Coherent) (ho : s.overflow = true) (hb : s.buckets ≤ 2 ^ 24)
  (hload : c.table.growth.maxLoad = Growth.defaultLoad)
include hc ho hb hload

theorem map_carried (call : Map.Call K V ρ) : (Map.perform H c heap call).2.1.table.Carried := by
  cases call with
  | insert k v => exact hcarried.gains hc ho hb hload h (gains_insert H h hc.tuned k v)
  | insertIfNew k v g =>
    exact hcarried.gains hc ho hb hload h (gains_insertIfNew_call H h hc.tuned k v g)
  | replace k v => exact hcarried.gains hc ho hb hload h (gains_replace H h hc.tuned k v)
  | count k => exact hcarried
  | common call => exact perform_carried H h hcarried call

theorem multimap_carried (call : Multimap.Call K V ρ) :
    (Multimap.perform H c heap call).2.1.table.Carried := by
  cases call with
  | insert k v => exact hcarried.gains hc ho hb hload h (gains_insertBeside H h hc.tuned k v)
  | count k | equalRun k => exact hcarried
  | eraseAll k => exact hcarried.releases (.eraseUpTo _ _ _ _ heap)
  | common call => exact perform_carried H h hcarried call

end

/-! ## Requests of calls -/

section

variable (ht : c.table.Tuned)
include h ht

theorem map_requested (call : Map.Call K V ρ) (hc : call.resizing = .grow) :
    c.table.Requested heap (call.array? H c) (Map.perform H c heap call).2.2 := by
  have hadd : ∀ k v, c.table.Requested heap c.table.due? (Map.add H c k v heap).2.2 :=
    fun k v => Table.requested_insertFront ht h _ _ _
  cases call with
  | insert k v =>
    simp only [Map.Call.array?, Map.perform]
    rcases insert_cases H h k v with ⟨hk, -, -, heq⟩ | ⟨hk, heq⟩ <;> rw [hk, heq]
    · exact .nothing
    · exact hadd k v
  | insertIfNew k v g =>
    rw [insertIfNew_heap, Map.Call.array?]
    rcases insertIfNew_cases H h k v with ⟨hk, heq⟩ | ⟨hk, heq⟩ <;> rw [hk, heq]
    · exact .nothing
    · exact hadd k v
  | replace k v =>
    simp only [Map.Call.array?, Map.perform]
    rcases replace_cases H h k v with ⟨hk, -, -, heq⟩ | ⟨hk, heq⟩ <;> rw [hk, heq]
    · exact .nothing
    · exact hadd k v
  | count k => cases hc
  | common call => cases call <;> cases hc

theorem multimap_requested (call : Multimap.Call K V ρ) (hc : call.resizing = .grow) :
    c.table.Requested heap (call.array? c) (Multimap.perform H c heap call).2.2 := by
  cases call with
  | insert k v => exact Table.requested_insertBeside ht h _ _ _ _
  | count k | equalRun k | eraseAll k => cases hc
  | common call => cases call <;> cases hc

end

end Keyed

end ArenaHash
