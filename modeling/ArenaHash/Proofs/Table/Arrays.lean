import ArenaHash.Proofs.Memory.Ledger
import ArenaHash.Table.Heads

/-!
# Bucket arrays and their loans

Bucket arrays are `Sound` if the inline array has its number of heads, a grown array has two or
more, and the sentinel of both is empty. A grown array is on loan with the layout that it will be
returned with. Main statements: what a request for an array comes to, that returning an array
closes its loan, and that replacing a head, growing and shrinking keep arrays sound.
-/

namespace ArenaHash

namespace Layout

/-- The layout of `count` elements in a row, whether or not a block may be so large. -/
def row (element : Layout) (count : Nat) : Layout := { element with size := element.size * count }

theorem array?_eq_row {element layout : Layout} {count : Nat}
    (h : element.array? count = some layout) : layout = element.row count := by
  unfold array? at h
  split at h
  · cases h
    rfl
  · cases h

end Layout

namespace HeadRow

variable {P : Type}

theorem sentinelEmpty_iff (r : HeadRow P) :
    r.sentinelEmpty = true ↔ 0 < r.slots.size ∧ r.slots[r.slots.size - 1]? = some none := by
  unfold sentinelEmpty
  rw [Array.back?_eq_getElem?]
  cases h : r.slots[r.slots.size - 1]? with
  | none => simp
  | some x =>
    have hlt := (Array.getElem?_eq_some_iff.mp h).1
    cases x with
    | none => simp; omega
    | some p => simp

theorem sentinelEmpty_empty (n : Nat) : (empty n : HeadRow P).sentinelEmpty = true := by
  simp [sentinelEmpty_iff, empty]

theorem head_empty (n i : Nat) : (empty n : HeadRow P).head i = none := by
  unfold head
  split
  · next hi =>
    rw [count_empty] at hi
    simp [empty, show i < n + 1 by omega]
  · rfl

theorem sentinelEmpty_setHead {r : HeadRow P} (h : r.sentinelEmpty = true) (i : Nat)
    (head : Option P) : (r.setHead i head).sentinelEmpty = true := by
  rw [sentinelEmpty_iff] at h ⊢
  unfold setHead
  split
  · next hi =>
    unfold count at hi
    have hne : i ≠ r.slots.size - 1 := by omega
    simpa [hne] using h
  · exact h

theorem count_fill (r : HeadRow P) (head : Option P) : (r.fill head).count = r.count := by
  simp [fill, count]

theorem sentinelEmpty_fill {r : HeadRow P} (h : r.sentinelEmpty = true) (head : Option P) :
    (r.fill head).sentinelEmpty = true := by
  rw [sentinelEmpty_iff] at h ⊢
  simpa [fill, count] using h

theorem head_fill_none (r : HeadRow P) (i : Nat) : (r.fill none).head i = none := by
  unfold head
  rw [count_fill]
  split
  · next hi => cases hs : r.slots[i]? <;> simp [fill, hs, hi]
  · rfl

end HeadRow

/-! ## Requesting and returning -/

namespace HeapRow

variable {P A : Type} [Allocator A] {slot : Layout} {lender : A} {heap heap' : Heap A}
  {loans : List (Loan A)}

/-- The loan of an array that will be returned through `lender`. -/
def loan (slot : Layout) (lender : A) (r : HeapRow P) : Loan A :=
  ⟨r.block, lender, slot.row (r.row.count + 1)⟩

/-- An array that has a layout is what is requested for it. -/
theorem alloc_eq {count : Nat} {layout : Layout} (ha : slot.array? (count + 1) = some layout)
    (lender : A) (heap : Heap A) :
    alloc slot count lender heap =
      ((heap.request lender layout).1.map fun b => (⟨b, .empty count⟩ : HeapRow P),
        (heap.request lender layout).2) := by
  simp only [alloc, ha]
  rcases heap.request lender layout with ⟨_ | _, _⟩ <;> rfl

/-- An array that was granted has its heads empty, and its block has the layout of a row. -/
theorem request_of_alloc_ok {count : Nat} {fresh : HeapRow P}
    (h : alloc slot count lender heap = (.ok fresh, heap')) :
    fresh.row = .empty count ∧ slot.array? (count + 1) = some (slot.row (count + 1)) ∧
      heap.request lender (slot.row (count + 1)) = (.ok fresh.block, heap') := by
  unfold alloc at h
  split at h
  · cases h
  · next layout hlayout =>
    have hrow := Layout.array?_eq_row hlayout
    subst hrow
    split at h
    · next hr =>
      cases h
      exact ⟨rfl, hlayout, hr⟩
    · cases h

theorem request_of_alloc_error {count : Nat} {layout : Layout} {e : MemoryError}
    (ha : slot.array? (count + 1) = some layout)
    (h : (alloc slot count lender heap : Except _ (HeapRow P) × _) = (.error e, heap')) :
    heap.request lender (slot.row (count + 1)) = (.error e, heap') := by
  rw [alloc_eq ha, Layout.array?_eq_row ha] at h
  rcases hr : heap.request lender (slot.row (count + 1)) with ⟨_ | b, later⟩ <;> rw [hr] at h <;>
    cases h
  rfl

theorem alloc_ok (hl : heap.Lends loans) {count : Nat} {fresh : HeapRow P}
    (h : alloc slot count lender heap = (.ok fresh, heap')) :
    fresh.row = .empty count ∧ slot.array? (count + 1) = some (slot.row (count + 1)) ∧
      heap'.Lends (fresh.loan slot lender :: loans) ∧ heap.Continues heap' none := by
  obtain ⟨hrow, hlayout, hr⟩ := request_of_alloc_ok h
  refine ⟨hrow, hlayout, ?_, Heap.continues_of_request_ok hr⟩
  rw [loan, hrow, HeadRow.count_empty]
  exact (hl.request_ok hr).2

theorem alloc_error (hl : heap.Lends loans) {count : Nat} {e : MemoryError}
    (h : (alloc slot count lender heap : Except _ (HeapRow P) × _) = (.error e, heap')) :
    heap'.Lends loans ∧ (slot.array? (count + 1) = none ∧ heap' = heap ∨
      heap.Continues heap' (some e)) := by
  cases hlayout : slot.array? (count + 1) with
  | none =>
    simp only [alloc, hlayout] at h
    cases h
    exact ⟨hl, .inl ⟨rfl, rfl⟩⟩
  | some layout =>
    have hr := request_of_alloc_error hlayout h
    exact ⟨hl.request_error hr, .inr (Heap.continues_of_request_error hr)⟩

omit [Allocator A] in
/-- Returning an array closes its loan. -/
theorem release?_eq {old : Option (HeapRow P)}
    (hold : ∀ r, old = some r → slot.array? (r.row.count + 1) = some (slot.row (r.row.count + 1)))
    (lender : A) (heap : Heap A) :
    release? slot old lender heap = heap.repay (old.toList.map (loan slot lender)) := by
  cases old with
  | none => rfl
  | some r => simp [release?, release, hold r rfl, Heap.repay, loan]

theorem release?_lends {old : Option (HeapRow P)}
    (hold : ∀ r, old = some r → slot.array? (r.row.count + 1) = some (slot.row (r.row.count + 1)))
    (hl : heap.Lends (old.toList.map (loan slot lender) ++ loans)) :
    (release? slot old lender heap).Lends loans ∧
      heap.Continues (release? slot old lender heap) none := by
  have hlends := hl.repay
  rw [← release?_eq hold] at hlends
  refine ⟨hlends, ?_⟩
  cases old with
  | none => exact .refl _
  | some r =>
    simp only [release?, release, hold r rfl]
    exact .giveBack _ _ _ _

end HeapRow

namespace Buckets

variable {P A : Type} {slot : Layout} {n : Nat} {b : Buckets P}

structure Sound (slot : Layout) (n : Nat) (b : Buckets P) : Prop where
  inline_count : b.inline.count = n
  inline_sentinel : b.inline.sentinelEmpty = true
  grown : ∀ r, b.grown = some r → 2 ≤ r.row.count ∧ r.row.sentinelEmpty = true ∧
    slot.array? (r.row.count + 1) = some (slot.row (r.row.count + 1))

/-- The loan of the grown array, if there is one. -/
def loans (slot : Layout) (lender : A) (b : Buckets P) : List (Loan A) :=
  b.grown.toList.map (HeapRow.loan slot lender)

theorem count_setHead (b : Buckets P) (i : Nat) (head : Option P) :
    (b.setHead i head).count = b.count := by
  unfold count setHead
  rw [row_modifyRow, HeadRow.count_setHead]

theorem head_setHead (b : Buckets P) (i j : Nat) (head : Option P) :
    (b.setHead i head).head j = if i = j ∧ i < b.count then head else b.head j := by
  unfold Buckets.head setHead
  rw [row_modifyRow, HeadRow.head_setHead]
  rfl

theorem head_eq_none {i : Nat} (h : b.count ≤ i) : b.head i = none :=
  if_neg (Nat.not_lt.mpr h)

theorem loans_setHead (slot : Layout) (lender : A) (b : Buckets P) (i : Nat)
    (head : Option P) : (b.setHead i head).loans slot lender = b.loans slot lender := by
  unfold loans setHead modifyRow
  cases h : b.grown with
  | none => simp
  | some r => simp [HeapRow.loan, HeadRow.count_setHead]

namespace Sound

theorem new (slot : Layout) (n : Nat) : (Buckets.new n : Buckets P).Sound slot n where
  inline_count := HeadRow.count_empty n
  inline_sentinel := HeadRow.sentinelEmpty_empty n
  grown := by simp [Buckets.new]

/-- Writing to the array in force keeps arrays sound if it spares the sentinel. -/
theorem modifyRow (h : b.Sound slot n) {f : HeadRow P → HeadRow P}
    (hcount : ∀ r, (f r).count = r.count)
    (hsentinel : ∀ r, r.sentinelEmpty = true → (f r).sentinelEmpty = true) :
    (b.modifyRow f).Sound slot n := by
  unfold Buckets.modifyRow
  cases hg : b.grown with
  | none =>
    exact
      { inline_count := (hcount _).trans h.inline_count
        inline_sentinel := hsentinel _ h.inline_sentinel
        grown := by simp }
  | some r =>
    obtain ⟨h2, hs, ha⟩ := h.grown r hg
    refine { h with grown := ?_ }
    intro r' hr'
    cases hr'
    simp only [hcount]
    exact ⟨h2, hsentinel _ hs, ha⟩

theorem setHead (h : b.Sound slot n) (i : Nat) (head : Option P) :
    (b.setHead i head).Sound slot n :=
  h.modifyRow (HeadRow.count_setHead · i head) fun _ hs =>
    HeadRow.sentinelEmpty_setHead hs i head

theorem grow (h : b.Sound slot n) {fresh : HeapRow P} {count : Nat} (h2 : 2 ≤ count)
    (hrow : fresh.row = .empty count)
    (ha : slot.array? (count + 1) = some (slot.row (count + 1))) :
    (b.grow fresh).2.Sound slot n where
  inline_count := (HeadRow.count_fill _ _).trans h.inline_count
  inline_sentinel := HeadRow.sentinelEmpty_fill h.inline_sentinel none
  grown := by
    intro r hr
    cases hr
    rw [hrow, HeadRow.count_empty]
    exact ⟨h2, HeadRow.sentinelEmpty_empty count, ha⟩

theorem shrink (h : b.Sound slot n) : b.shrink.2.Sound slot n where
  inline_count := (HeadRow.count_fill _ _).trans h.inline_count
  inline_sentinel := HeadRow.sentinelEmpty_fill h.inline_sentinel none
  grown := by simp [Buckets.shrink]

theorem sentinelEmpty (h : b.Sound slot n) : b.sentinelEmpty = true := by
  unfold Buckets.sentinelEmpty row
  cases hg : b.grown with
  | none => exact h.inline_sentinel
  | some r => exact (h.grown r hg).2.1

/-- A grown array has a layout. -/
theorem array?_count (h : b.Sound slot n) (hg : b.isGrown = true) :
    slot.array? (b.count + 1) = some (slot.row (b.count + 1)) := by
  obtain ⟨r, hr⟩ := Option.isSome_iff_exists.mp hg
  have hrow : b.row = r.row := by rw [row, hr]
  rw [count, hrow]
  exact (h.grown r hr).2.2

theorem two_le_count (h : b.Sound slot n) (hn : 2 ≤ n) : 2 ≤ b.count := by
  unfold count row
  cases hg : b.grown with
  | none => exact h.inline_count.symm ▸ hn
  | some r => exact (h.grown r hg).1

end Sound

end Buckets

end ArenaHash
