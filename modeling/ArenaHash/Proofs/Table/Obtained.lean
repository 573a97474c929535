import ArenaHash.Proofs.Memory.Requests
import ArenaHash.Proofs.Table.Edits

/-!
# Slots that are obtained

`t.Obtained heap n qs result t' heap'`: between the two states `n` slots were asked for, one after
the other up to the first refusal, and `qs` were handed out. In a table that never returned a slot
the inline ones come first, so the requests for the others follow from how many slots are in use.
-/

namespace ArenaHash.Table

/-- The requests for `n` further slots of a table that has handed out `used` and got none back. -/
def Shape.nodeRequests (s : Shape) (used n : Nat) : List Layout :=
  List.replicate (n - (s.capacity - used)) s.nodeLayout

theorem Shape.nodeRequests_add (s : Shape) (used n m : Nat) :
    s.nodeRequests used (n + m) = s.nodeRequests used n ++ s.nodeRequests (used + n) m := by
  rw [nodeRequests, nodeRequests, nodeRequests, List.replicate_append_replicate]
  congr 1
  omega

theorem Shape.nodeRequests_inline {s : Shape} {used : Nat} (h : used < s.capacity) :
    s.nodeRequests used 1 = [] := by
  rw [nodeRequests, show 1 - (s.capacity - used) = 0 by omega]
  rfl

theorem Shape.nodeRequests_spill {s : Shape} {used : Nat} (h : s.capacity ≤ used) :
    s.nodeRequests used 1 = [s.nodeLayout] := by
  rw [nodeRequests, show 1 - (s.capacity - used) = 1 by omega]
  rfl

variable {s : Shape} {T A : Type}

/-- Slots have been taken one after the other and none has been returned. -/
structure Unspoilt (t : Table s T A) : Prop where
  freeList : t.nodes.freeList = none
  untouched : t.nodes.untouched = min t.size s.capacity

theorem unspoilt_new (delegate : A) : (new delegate : Table s T A).Unspoilt where
  freeList := rfl
  untouched := (Nat.zero_min _).symm

variable [Allocator A] {t t' t'' : Table s T A} {heap heap' heap'' : Heap A} {n m : Nat}
  {qs rs : List Ref} {result : Except MemoryError Unit} {e : MemoryError}

structure Obtained (t : Table s T A) (heap : Heap A) (n : Nat) (qs : List Ref)
    (result : Except MemoryError Unit) (t' : Table s T A) (heap' : Heap A) : Prop where
  unspoilt : t'.Unspoilt
  size : result = .ok () → t'.size = t.size + n
  delegate : t'.delegate = t.delegate
  array : t'.buckets.loans Shape.headLayout t.delegate =
    t.buckets.loans Shape.headLayout t.delegate
  requests : heap.requestAll t.delegate (s.nodeRequests t.size n) =
    (t.nodes.loans qs, result, heap')

namespace Obtained

theorem trans (h : t.Obtained heap n qs (.ok ()) t' heap')
    (h' : t'.Obtained heap' m rs result t'' heap'') :
    t.Obtained heap (n + m) (qs ++ rs) result t'' heap'' where
  unspoilt := h'.unspoilt
  size hok := by rw [h'.size hok, h.size rfl, Nat.add_assoc]
  delegate := h'.delegate.trans h.delegate
  array := by
    have harray := h'.array
    rw [h.delegate] at harray
    exact harray.trans h.array
  requests := by
    have hdelegate : t'.nodes.delegate = t.nodes.delegate := h.delegate
    have hrest := h'.requests
    rw [Pool.loans, hdelegate, h.delegate, h.size rfl] at hrest
    rw [Shape.nodeRequests_add, Heap.requestAll_append h.requests, hrest, Pool.loans, Pool.loans,
      List.filterMap_append, List.map_append]

/-- What comes after a refusal is not asked for. -/
theorem refused (h : t.Obtained heap n qs (.error e) t' heap') (m : Nat) :
    t.Obtained heap (n + m) qs (.error e) t' heap' where
  unspoilt := h.unspoilt
  size := nofun
  delegate := h.delegate
  array := h.array
  requests := by rw [Shape.nodeRequests_add, Heap.requestAll_refused h.requests]

end Obtained

namespace Unspoilt

theorem refl (h : t.Unspoilt) (heap : Heap A) : t.Obtained heap 0 [] (.ok ()) t heap where
  unspoilt := h
  size _ := rfl
  delegate := rfl
  array := rfl
  requests := by rw [Shape.nodeRequests, Nat.zero_sub]; rfl

/-- Redirecting a bucket obtains nothing. -/
theorem setHead (h : t.Unspoilt) (i : Nat) (head : Option Ref) (heap : Heap A) :
    t.Obtained heap 0 [] (.ok ()) (t.setHead i head) heap :=
  { h.refl heap with
    unspoilt := ⟨h.freeList, h.untouched⟩
    array := Buckets.loans_setHead _ _ _ _ _ }

/-- Nor does redirecting a link. -/
theorem setNext (h : t.Unspoilt) (q : Ref) (next : Option Ref) (heap : Heap A) :
    t.Obtained heap 0 [] (.ok ()) (t.setNext q next) heap := by
  have hbooks := t.nodes.books_modify q fun n => { n with next }
  simp only [Pool.books, Prod.mk.injEq] at hbooks
  obtain ⟨hfree, huntouched, -, -, hdelegate⟩ := hbooks
  exact
    { h.refl heap with
      unspoilt := ⟨hfree.trans h.freeList, huntouched.trans h.untouched⟩
      delegate := hdelegate }

/-- Appending a node to a chain whose last one is known. -/
theorem append (h : t.Unspoilt) (i : Nat) (tail next : Option Ref) (heap : Heap A) :
    t.Obtained heap 0 [] (.ok ()) (match tail with
      | some last => t.setNext last next
      | none => t.setHead i next) heap := by
  cases tail with
  | none => exact h.setHead i next heap
  | some last => exact h.setNext last next heap

/-- One slot more: an inline one while there are any left, then a block of the heap. -/
theorem newNode (h : t.Unspoilt) (hroom : s.overflow = false → t.size < s.capacity)
    (node : Node T) (heap : Heap A) :
    t.Obtained heap 1 (t.newNode node heap).1.toOption.toList
      ((t.newNode node heap).1.map fun _ => ()) (t.newNode node heap).2.1
      (t.newNode node heap).2.2 := by
  have hcases := Pool.allocation t.nodes heap
  have huntouched := h.untouched
  have hcapacity : s.pool.capacity = s.capacity := rfl
  unfold Table.newNode
  generalize t.nodes.alloc heap = out at hcases ⊢
  cases hcases with
  | reuse hf => exact absurd (hf.symm.trans h.freeList) nofun
  | touch hf hlt =>
    have htaken : t.nodes.untouched + 1 = min (t.size + 1) s.capacity := by omega
    refine ⟨⟨hf, htaken⟩, fun _ => rfl, rfl, rfl, ?_⟩
    rw [Shape.nodeRequests_inline (by omega)]
    rfl
  | spill hf hle _ hr =>
    have htaken : t.nodes.untouched = min (t.size + 1) s.capacity := by omega
    refine ⟨⟨hf, htaken⟩, fun _ => rfl, rfl, rfl, ?_⟩
    rw [Shape.nodeRequests_spill (by omega)]
    exact Heap.requestAll_of_ok (show heap.request t.delegate s.nodeLayout = _ from hr) []
  | refused _ hle _ hr =>
    refine ⟨h, nofun, rfl, rfl, ?_⟩
    rw [Shape.nodeRequests_spill (by omega)]
    exact Heap.requestAll_of_error (show heap.request t.delegate s.nodeLayout = _ from hr) []
  | full _ hle ho =>
    have hlt := hroom ho
    omega

/-- Overflow slots hold what the inline ones cannot. -/
theorem overflowLive (h : t.Unspoilt) {live : List Ref} {others : List (Loan A)}
    (hk : t.Keeps heap live others) : t.nodes.overflowLive = t.size - s.capacity := by
  obtain ⟨is, hfree, hr⟩ := hk.holds.free
  rw [h.freeList] at hfree
  cases is with
  | cons i is => cases hfree.1
  | nil =>
    have hinline := hr.length_eq
    rw [List.append_nil, List.length_range, h.untouched] at hinline
    have hall := Handle.length_index_add_block live
    rw [hinline, ← hk.holds.overflowLive, ← hk.size] at hall
    omega

end Unspoilt

end ArenaHash.Table
