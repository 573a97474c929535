import ArenaHash.Proofs.Table.Edits

/-!
# Slots that are returned

`t.Returned heap qs t' heap'`: between the two states the slots `qs` were returned, one after the
other. The inline ones are on top of the free list, the last one first; the blocks of the others
went back to the heap in this order, and nothing else happened there. The bucket array stays on
loan.
-/

namespace ArenaHash

namespace Pool.FreeChain

variable {s : Shape} {α A : Type} {p : Pool s α A} {head : Option Nat} {is : List Nat}

theorem link (h : p.FreeChain head is) {i : Nat} (hi : i ∈ is) :
    ∃ next, p.slots[i]? = some (.link next) := by
  induction is generalizing head with
  | nil => cases hi
  | cons j is ih =>
    obtain ⟨-, next, hn, hr⟩ := h
    rcases List.mem_cons.mp hi with rfl | hi
    · exact ⟨next, hn⟩
    · exact ih hr hi

/-- What can be read is not free. -/
theorem ne_of_read (h : p.FreeChain head is) {i j : Nat} (hi : i ∈ is)
    (hj : (p.read (.inline j)).isSome) : j ≠ i := by
  rintro rfl
  obtain ⟨next, hn⟩ := h.link hi
  simp [read, hn, Slot.value?] at hj

theorem modify (h : p.FreeChain head is) (q : Ref) (f : α → α) :
    (p.modify q f).FreeChain head is := by
  unfold Pool.modify
  cases hr : p.read q with
  | none => exact h
  | some v =>
    cases q with
    | inline j =>
      refine h.congr fun i hi => ?_
      have hij : j ≠ i := h.ne_of_read hi (by rw [hr]; rfl)
      simp [write, hij]
    | overflow b => exact h.congr fun _ _ => rfl

variable [Allocator A]

/-- A slot that is returned comes before all that were free. -/
theorem free (h : p.FreeChain p.freeList is) {q : Ref} (hq : (p.read q).isSome) (heap : Heap A) :
    (p.free q heap).1.FreeChain (p.free q heap).1.freeList
      ((([q] : List Ref).filterMap Handle.index?).reverse ++ is) := by
  cases q with
  | inline j =>
    have hj : j < s.capacity := by
      obtain ⟨v, hv⟩ := Option.isSome_iff_exists.mp hq
      exact lt_capacity_of_read hv j rfl
    refine ⟨rfl, p.freeList, by simp [Pool.free, hj], ?_⟩
    refine h.congr fun i hi => ?_
    simp [Pool.free, h.ne_of_read hi hq]
  | overflow b => exact h.congr fun _ _ => rfl

end Pool.FreeChain

namespace Table

variable {s : Shape} {T A : Type} {t t' t'' : Table s T A}
  {heap heap' heap'' : Heap A} {qs rs : List Ref}

structure Returned (t : Table s T A) (heap : Heap A) (qs : List Ref) (t' : Table s T A)
    (heap' : Heap A) : Prop where
  size : t'.size = t.size - qs.length
  free : ∀ is, t.nodes.FreeChain t.nodes.freeList is →
    t'.nodes.FreeChain t'.nodes.freeList ((qs.filterMap Handle.index?).reverse ++ is)
  untouched : t'.nodes.untouched = t.nodes.untouched
  delegate : t'.delegate = t.delegate
  array : t'.buckets.loans Shape.headLayout t.delegate =
    t.buckets.loans Shape.headLayout t.delegate
  heap : heap' = heap.repay (t.nodes.loans qs)

namespace Returned

theorem refl (t : Table s T A) (heap : Heap A) : t.Returned heap [] t heap :=
  ⟨rfl, fun _ h => h, rfl, rfl, rfl, rfl⟩

theorem loans_eq (h : t.Returned heap qs t' heap') (live : List Ref) :
    t'.loans live = t.loans live := by
  have hdelegate : t'.nodes.delegate = t.nodes.delegate := h.delegate
  rw [Table.loans, h.delegate, h.array, Pool.loans, hdelegate]
  rfl

theorem trans (h : t.Returned heap qs t' heap') (h' : t'.Returned heap' rs t'' heap'') :
    t.Returned heap (qs ++ rs) t'' heap'' where
  size := by rw [h'.size, h.size, List.length_append, Nat.sub_sub]
  free is his := by
    rw [List.filterMap_append, List.reverse_append, List.append_assoc]
    exact h'.free _ (h.free is his)
  untouched := h'.untouched.trans h.untouched
  delegate := h'.delegate.trans h.delegate
  array := by
    have harray := h'.array
    rw [h.delegate] at harray
    exact harray.trans h.array
  heap := by
    have hdelegate : t'.nodes.delegate = t.nodes.delegate := h.delegate
    have hheap := h'.heap
    rw [Pool.loans, hdelegate, h.heap] at hheap
    rw [Pool.loans, List.filterMap_append, List.map_append, Heap.repay_append]
    exact hheap

/-- Redirecting a bucket returns nothing. -/
theorem setHead (t : Table s T A) (i : Nat) (head : Option Ref) (heap : Heap A) :
    t.Returned heap [] (t.setHead i head) heap :=
  ⟨rfl, fun _ h => h, rfl, rfl, Buckets.loans_setHead _ _ _ _ _, rfl⟩

/-- Nor does a change to a node. -/
theorem modify (t : Table s T A) (q : Ref) (f : Node T → Node T) (heap : Heap A) :
    t.Returned heap [] { t with nodes := t.nodes.modify q f } heap := by
  have hbooks := t.nodes.books_modify q f
  simp only [Pool.books, Prod.mk.injEq] at hbooks
  obtain ⟨hfree, huntouched, -, -, hdelegate⟩ := hbooks
  refine ⟨rfl, fun is his => ?_, huntouched, hdelegate, rfl, rfl⟩
  have hchain := his.modify q f
  rw [← hfree] at hchain
  exact hchain

variable [Allocator A]

theorem freeNode {q : Ref} (hq : (t.nodes.read q).isSome) (heap : Heap A) :
    t.Returned heap [q] (t.freeNode q heap).1 (t.freeNode q heap).2 where
  size := rfl
  free _ his := his.free hq heap
  untouched := by cases q <;> rfl
  delegate := t.nodes.delegate_free q heap
  array := rfl
  heap := by cases q <;> rfl

theorem unlink {q : Ref} (hq : (t.nodes.read q).isSome) (i : Nat) (prev : Option Ref)
    (heap : Heap A) :
    t.Returned heap [q] (t.unlink i prev q heap).1 (t.unlink i prev q heap).2 := by
  cases prev with
  | none => exact (setHead t i _ heap).trans (freeNode (t := t.setHead i _) hq heap)
  | some p =>
    refine (modify t p _ heap).trans (freeNode (t := t.setNext p _) ?_ heap)
    have hsame := t.nodes.map_read_modify p (fun n => { n with next := t.nodes.next q })
      (fun _ => ()) (fun _ => rfl) q
    rw [← Option.isSome_map (f := fun _ => ())] at hq ⊢
    exact hsame ▸ hq

end Returned

end Table

end ArenaHash
