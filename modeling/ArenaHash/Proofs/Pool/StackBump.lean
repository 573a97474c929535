import ArenaHash.Memory.Lender
import ArenaHash.Proofs.Pool.Live

/-!
# A pool as a stack and a counter

`StackBump` is the bookkeeping of a pool with the free list as a list: the inline slots that came
back, latest first, a counter below which every inline slot was handed out at some time, and the
handles that are out. A pool keeps the same stack as links in the very slots it hands out, so what
its callers write must not get in the way. A `Run` takes the same calls to both, with values written
into live slots in between and other users of the heap at work, and the two never differ
(`Run.refines_stack`). Each state of a pool `Refines` one of the bookkeeping (`Run.refines`).
-/

namespace ArenaHash

structure StackBump (A : Type) where
  /-- The inline slots that came back and have not been reused, latest first. -/
  returned : List Nat
  /-- The lowest inline slot that was never handed out. -/
  fresh : Nat
  live : List Ref
  delegate : A

namespace StackBump

variable {A : Type}

def new (delegate : A) : StackBump A := ⟨[], 0, [], delegate⟩

def inlineLive (r : StackBump A) : Nat := r.live.countP Handle.isInline

def overflowLive (r : StackBump A) : Nat := r.live.countP (!·.isInline)

/-- The slot that came back last, or else the lowest that was never handed out, or else a block. -/
def alloc [Allocator A] (s : Pool.Shape) (r : StackBump A) (heap : Heap A) :
    Except MemoryError Ref × StackBump A × Heap A :=
  match r.returned with
  | i :: is => (.ok (.inline i), { r with returned := is, live := .inline i :: r.live }, heap)
  | [] =>
    if r.fresh < s.capacity then
      (.ok (.inline r.fresh),
        { r with fresh := r.fresh + 1, live := .inline r.fresh :: r.live }, heap)
    else if s.overflow then
      match heap.request r.delegate s.layout with
      | (.ok b, heap) => (.ok (.overflow b), { r with live := .overflow b :: r.live }, heap)
      | (.error e, heap) => (.error e, r, heap)
    else (.error (.full s.capacity), r, heap)

def free [Allocator A] (s : Pool.Shape) (r : StackBump A) (q : Ref) (heap : Heap A) :
    StackBump A × Heap A :=
  match q with
  | .inline i => ({ r with returned := i :: r.returned, live := r.live.erase q }, heap)
  | .overflow b => ({ r with live := r.live.erase q }, heap.giveBack r.delegate b s.layout)

def forget (r : StackBump A) : StackBump A := { r with returned := [], fresh := 0, live := [] }

def setDelegate [Allocator A] (r : StackBump A) (delegate : A) :
    Except MemoryError Unit × StackBump A :=
  if 0 < r.overflowLive && delegate != r.delegate then
    (.error (.busy (Allocator.name r.delegate) r.overflowLive), r)
  else (.ok (), { r with delegate })

end StackBump

theorem Handle.countP_isInline {β : Type} (live : List (Handle β)) :
    live.countP isInline = (live.filterMap index?).length := by
  induction live with
  | nil => rfl
  | cons q live ih => cases q <;> rw [List.countP_cons, ih] <;> rfl

theorem Handle.countP_not_isInline {β : Type} (live : List (Handle β)) :
    live.countP (!·.isInline) = (live.filterMap block?).length := by
  induction live with
  | nil => rfl
  | cons q live ih => cases q <;> rw [List.countP_cons, ih] <;> rfl

namespace Pool

variable {s : Shape} {α A : Type}

/-- The links from a slot lead through one list only. -/
theorem FreeChain.unique {p : Pool s α A} {head : Option Nat} {is js : List Nat}
    (h : p.FreeChain head is) (h' : p.FreeChain head js) : is = js := by
  induction is generalizing head js with
  | nil =>
    cases js with
    | nil => rfl
    | cons j js => exact absurd (h.symm.trans h'.1) nofun
  | cons i is ih =>
    obtain ⟨rfl, next, hnext, hrest⟩ := h
    cases js with
    | nil => cases h'
    | cons j js =>
      obtain ⟨hhead, next', hnext', hrest'⟩ := h'
      cases hhead
      cases hnext.symm.trans hnext'
      rw [ih hrest hrest']

variable [Allocator A]

/-- A new overflow allocator is equal to the old one, or no block has to be returned to it. -/
theorem Holds.setDelegate {p : Pool s α A} {live : List Ref} {heap : Heap A}
    {others : List (Loan A)} (h : p.Holds live) (hl : heap.Lends (p.loans live ++ others))
    (delegate : A) :
    (p.setDelegate delegate).2.Holds live ∧
      heap.Lends ((p.setDelegate delegate).2.loans live ++ others) := by
  unfold Pool.setDelegate
  split
  · exact ⟨h, hl⟩
  · next hallowed =>
    refine ⟨h.relend delegate, hl.relend delegate ?_ ?_⟩
    · simp [loans, Function.comp_def]
    · intro x hx
      obtain ⟨b, hb, rfl⟩ := List.mem_map.mp hx
      have hpos : 0 < p.overflowLive := h.overflowLive ▸ List.length_pos_of_mem hb
      simpa [hpos, bne] using hallowed

/-- The pool keeps these books. -/
structure Refines (p : Pool s α A) (r : StackBump A) (heap : Heap A) (others : List (Loan A)) :
    Prop where
  holds : p.Holds r.live
  returned : p.FreeChain p.freeList r.returned
  fresh : p.untouched = r.fresh
  delegate : p.delegate = r.delegate
  lends : heap.Lends (p.loans r.live ++ others)

namespace Refines

variable {p : Pool s α A} {r : StackBump A} {heap heap' : Heap A} {others : List (Loan A)}
  (h : p.Refines r heap others)
include h

/-- Every inline slot that was handed out is live or waits in the stack, and in one place. -/
theorem slots : (r.live.filterMap Handle.index? ++ r.returned).Perm (List.range r.fresh) := by
  obtain ⟨is, hc, hr⟩ := h.holds.free
  rw [← h.fresh, h.returned.unique hc]
  exact hr

/-- A slot that waits is not live. -/
theorem notMem_live {i : Nat} (hi : i ∈ r.returned) : .inline i ∉ r.live :=
  Holds.not_mem_of_free (h.fresh ▸ h.slots) hi

theorem inlineLive : p.inlineLive = r.inlineLive :=
  h.holds.inlineLive.trans (Handle.countP_isInline r.live).symm

theorem overflowLive : p.overflowLive = r.overflowLive :=
  h.holds.overflowLive.trans (Handle.countP_not_isInline r.live).symm

theorem returned_eq_nil (hf : p.freeList = none) : r.returned = [] := by
  have hchain := h.returned
  rw [hf] at hchain
  cases hr : r.returned with
  | nil => rfl
  | cons i is => rw [hr] at hchain; cases hchain.1

theorem returned_eq_cons {i : Nat} (hf : p.freeList = some i) :
    ∃ is, r.returned = i :: is ∧ p.FreeChain (p.linkAt i) is := by
  have hchain := h.returned
  rw [hf] at hchain
  cases hr : r.returned with
  | nil => rw [hr] at hchain; cases hchain
  | cons j is =>
    rw [hr] at hchain
    obtain ⟨hij, next, hnext, hrest⟩ := hchain
    cases hij
    have hlink : p.linkAt i = next := by simp [linkAt, hnext]
    exact ⟨is, rfl, hlink ▸ hrest⟩

theorem alloc :
    (p.alloc heap).1 = (r.alloc s heap).1 ∧ (p.alloc heap).2.2 = (r.alloc s heap).2.2 ∧
      (p.alloc heap).2.1.Refines (r.alloc s heap).2.1 (p.alloc heap).2.2 others := by
  have hcases := allocation p heap
  rcases hr : p.alloc heap with ⟨result, p', heap'⟩
  rw [hr] at hcases
  cases hcases with
  | @reuse i hf =>
    obtain ⟨-, hholds, hlends, -⟩ := h.holds.alloc_ok h.lends hr
    obtain ⟨is, hreturned, hrest⟩ := h.returned_eq_cons hf
    have hrun : r.alloc s heap = (.ok (.inline i),
        { r with returned := is, live := .inline i :: r.live }, heap) := by
      simp only [StackBump.alloc, hreturned]
    rw [hrun]
    exact ⟨rfl, rfl, hholds, hrest.congr fun _ _ => rfl, h.fresh, h.delegate, hlends⟩
  | touch hf hlt =>
    obtain ⟨-, hholds, hlends, -⟩ := h.holds.alloc_ok h.lends hr
    have hrun : r.alloc s heap = (.ok (.inline p.untouched),
        { r with fresh := p.untouched + 1, live := .inline p.untouched :: r.live }, heap) := by
      rw [h.fresh] at hlt ⊢
      simp only [StackBump.alloc, h.returned_eq_nil hf, if_pos hlt]
    rw [hrun]
    exact ⟨rfl, rfl, hholds, h.returned.congr fun _ _ => rfl, rfl, h.delegate, hlends⟩
  | @spill hf hle ho b _ hreq =>
    obtain ⟨-, hholds, hlends, -⟩ := h.holds.alloc_ok h.lends hr
    have hrun : r.alloc s heap =
        (.ok (.overflow b), { r with live := .overflow b :: r.live }, heap') := by
      rw [h.fresh, ← Nat.not_lt] at hle
      rw [h.delegate] at hreq
      simp only [StackBump.alloc, h.returned_eq_nil hf, if_neg hle, ho, if_true, hreq]
    rw [hrun]
    exact ⟨rfl, rfl, hholds, h.returned.congr fun _ _ => rfl, h.fresh, h.delegate, hlends⟩
  | @refused hf hle ho e _ hreq =>
    obtain ⟨-, hlends, -⟩ := h.holds.alloc_error h.lends hr
    have hrun : r.alloc s heap = (.error e, r, heap') := by
      rw [h.fresh, ← Nat.not_lt] at hle
      rw [h.delegate] at hreq
      simp only [StackBump.alloc, h.returned_eq_nil hf, if_neg hle, ho, if_true, hreq]
    rw [hrun]
    exact ⟨rfl, rfl, { h with lends := hlends }⟩
  | full hf hle ho =>
    have hrun : r.alloc s heap = (.error (.full s.capacity), r, heap) := by
      rw [h.fresh, ← Nat.not_lt] at hle
      simp only [StackBump.alloc, h.returned_eq_nil hf, if_neg hle, ho, Bool.false_eq_true,
        if_false]
    rw [hrun]
    exact ⟨rfl, rfl, h⟩

theorem free {q : Ref} (hq : q ∈ r.live) :
    (p.free q heap).2 = (r.free s q heap).2 ∧
      (p.free q heap).1.Refines (r.free s q heap).1 (p.free q heap).2 others := by
  have hperm := List.perm_cons_erase hq
  have hholds := h.holds.perm hperm
  obtain ⟨hholds', hlends'⟩ := hholds.release
    (h.lends.perm (.append_right _ ((hperm.filterMap _).map _)))
  cases q with
  | inline i =>
    have hi : i < s.capacity := h.holds.lt_capacity hq i rfl
    refine ⟨rfl, hholds', ⟨rfl, p.freeList, by simp [Pool.free, hi], ?_⟩, h.fresh, h.delegate,
      hlends'⟩
    -- A live slot is not in the stack, so the link written into it breaks no other.
    refine h.returned.congr fun j hj => ?_
    have hij : i ≠ j := fun hij => h.notMem_live hj (hij ▸ hq)
    simp [Pool.free, hij]
  | overflow b =>
    refine ⟨by rw [StackBump.free, ← h.delegate]; rfl, hholds', ?_, h.fresh, h.delegate, hlends'⟩
    exact h.returned.congr fun _ _ => rfl

theorem write {q : Ref} (hq : q ∈ r.live) (v : α) : (p.write q v).Refines r heap others where
  holds := h.holds.write hq v
  returned := by
    cases q with
    | inline i =>
      refine h.returned.congr fun j hj => ?_
      have hij : i ≠ j := fun hij => h.notMem_live hj (hij ▸ hq)
      simp [Pool.write, hij]
    | overflow b => exact h.returned.congr fun _ _ => rfl
  fresh := by cases q <;> exact h.fresh
  delegate := by cases q <;> exact h.delegate
  lends := by cases q <;> exact h.lends

/-- The blocks that were out stay on loan. -/
theorem forget : p.forget.Refines r.forget heap (p.loans r.live ++ others) where
  holds := .forget p
  returned := rfl
  fresh := rfl
  delegate := h.delegate
  lends := h.lends

theorem setDelegate (delegate : A) :
    (p.setDelegate delegate).1 = (r.setDelegate delegate).1 ∧
      (p.setDelegate delegate).2.Refines (r.setDelegate delegate).2 heap others := by
  obtain ⟨hholds, hlends⟩ := h.holds.setDelegate h.lends delegate
  by_cases hbusy : 0 < r.overflowLive && delegate != r.delegate
  · have hp : p.setDelegate delegate =
        (.error (.busy (Allocator.name r.delegate) r.overflowLive), p) := by
      rw [Pool.setDelegate, h.overflowLive, h.delegate, if_pos hbusy]
    rw [hp, StackBump.setDelegate, if_pos hbusy]
    exact ⟨rfl, h⟩
  · have hp : p.setDelegate delegate = (.ok (), { p with delegate }) := by
      rw [Pool.setDelegate, if_neg]
      rwa [h.overflowLive, h.delegate]
    rw [hp] at hholds hlends ⊢
    rw [StackBump.setDelegate, if_neg hbusy]
    exact ⟨rfl, hholds, h.returned.congr fun _ _ => rfl, h.fresh, rfl, hlends⟩

end Refines

/-! ## Runs -/

/-- A pool and its books after the same calls, and the heap that the pool has come to. -/
inductive Run : Pool s α A → StackBump A → Heap A → Prop where
  | new (delegate : A) {heap : Heap A} {others : List (Loan A)} (hl : heap.Lends others) :
    Run (.new delegate) (.new delegate) heap
  | alloc {p : Pool s α A} {r : StackBump A} {heap : Heap A} (h : Run p r heap) :
    Run (p.alloc heap).2.1 (r.alloc s heap).2.1 (p.alloc heap).2.2
  | free {p : Pool s α A} {r : StackBump A} {heap : Heap A} (h : Run p r heap) {q : Ref}
    (hq : q ∈ r.live) : Run (p.free q heap).1 (r.free s q heap).1 (p.free q heap).2
  | write {p : Pool s α A} {r : StackBump A} {heap : Heap A} (h : Run p r heap) {q : Ref}
    (hq : q ∈ r.live) (v : α) : Run (p.write q v) r heap
  | forget {p : Pool s α A} {r : StackBump A} {heap : Heap A} (h : Run p r heap) :
    Run p.forget r.forget heap
  | setDelegate {p : Pool s α A} {r : StackBump A} {heap : Heap A} (h : Run p r heap)
    (delegate : A) : Run (p.setDelegate delegate).2 (r.setDelegate delegate).2 heap
  /-- Others used the heap. -/
  | elsewhere {p : Pool s α A} {r : StackBump A} {heap heap' : Heap A} {others : List (Loan A)}
    (h : Run p r heap) (hl : heap'.Lends (p.loans r.live ++ others)) : Run p r heap'

variable {p : Pool s α A} {r : StackBump A} {heap : Heap A}

theorem Run.refines (h : Run p r heap) : ∃ others, p.Refines r heap others := by
  induction h with
  | @new delegate heap others hl => exact ⟨others, .new delegate, rfl, rfl, rfl, hl⟩
  | alloc _ ih =>
    obtain ⟨others, hr⟩ := ih
    exact ⟨others, hr.alloc.2.2⟩
  | free _ hq ih =>
    obtain ⟨others, hr⟩ := ih
    exact ⟨others, (hr.free hq).2⟩
  | write _ hq v ih =>
    obtain ⟨others, hr⟩ := ih
    exact ⟨others, hr.write hq v⟩
  | forget _ ih =>
    obtain ⟨others, hr⟩ := ih
    exact ⟨_, hr.forget⟩
  | setDelegate _ delegate ih =>
    obtain ⟨others, hr⟩ := ih
    exact ⟨others, (hr.setDelegate delegate).2⟩
  | elsewhere _ hl ih =>
    obtain ⟨others, hr⟩ := ih
    exact ⟨_, { hr with lends := hl }⟩

/-- The pool does what its books say. -/
structure Mirrors (p : Pool s α A) (r : StackBump A) (heap : Heap A) : Prop where
  answer : (p.alloc heap).1 = (r.alloc s heap).1
  heap_alloc : (p.alloc heap).2.2 = (r.alloc s heap).2.2
  /-- Nothing is asked of the heap as long as an inline slot is not live. -/
  inline : (∃ i < s.capacity, .inline i ∉ r.live) →
    ∃ i, (p.alloc heap).1 = .ok (.inline i) ∧ (p.alloc heap).2.2 = heap
  distinct : ∀ q, (p.alloc heap).1 = .ok q → q ∉ r.live
  failed : ∀ e, (p.alloc heap).1 = .error e → (p.alloc heap).2.1 = p
  heap_free : ∀ q ∈ r.live, (p.free q heap).2 = (r.free s q heap).2
  setDelegate : ∀ delegate, (p.setDelegate delegate).1 = (r.setDelegate delegate).1
  nodup : r.live.Nodup
  /-- Every inline slot that was handed out is live or waits in the stack, and in one place. -/
  slots : (r.live.filterMap Handle.index? ++ r.returned).Perm (List.range r.fresh)
  inlineLive : p.inlineLive = r.inlineLive
  overflowLive : p.overflowLive = r.overflowLive
  inlineLeft : p.inlineLeft = s.capacity - r.inlineLive

theorem Refines.mirrors {others : List (Loan A)} (h : p.Refines r heap others) :
    p.Mirrors r heap where
  answer := h.alloc.1
  heap_alloc := h.alloc.2.1
  inline := by
    rintro ⟨i, hi, hlive⟩
    have hfull : p.freeList = none → ¬s.capacity ≤ p.untouched := by
      intro hf hle
      have hmem := h.slots.mem_iff (a := i)
      rw [h.returned_eq_nil hf, List.append_nil, List.mem_range, ← h.fresh] at hmem
      exact hlive (Handle.mem_index.mp (hmem.mpr (Nat.lt_of_lt_of_le hi hle)))
    have hcases := allocation p heap
    generalize p.alloc heap = result at hcases
    cases hcases with
    | reuse | touch => exact ⟨_, rfl, rfl⟩
    | spill hf hle | refused hf hle | full hf hle => exact absurd hle (hfull hf)
  distinct q hq := by
    rcases hr : p.alloc heap with ⟨result, p', heap'⟩
    rw [hr] at hq
    cases hq
    exact (h.holds.alloc_ok h.lends hr).1
  failed e he := by
    rcases hr : p.alloc heap with ⟨result, p', heap'⟩
    rw [hr] at he
    cases he
    exact (h.holds.alloc_error h.lends hr).1
  heap_free q hq := (h.free hq).1
  setDelegate delegate := (h.setDelegate delegate).1
  nodup := h.holds.nodup
  slots := h.slots
  inlineLive := h.inlineLive
  overflowLive := h.overflowLive
  inlineLeft := by rw [inlineLeft, h.inlineLive]

/-- In every run a pool hands out the slot that came back last, or else the lowest that was never
handed out, and turns to its overflow allocator only when all inline slots are live. -/
theorem Run.refines_stack (h : Run p r heap) : p.Mirrors r heap := by
  obtain ⟨others, hr⟩ := h.refines
  exact hr.mirrors

/-- Both slots came back, the second one first, and a block is still out. -/
theorem refines_stack_reused :
    let s : Shape := ⟨2, true, ⟨8, 8⟩⟩
    let heap : Heap Lender := { serves := fun _ _ _ => true }
    let p : Pool s Nat Lender := .new .plain
    let p := (p.alloc heap).2.1
    let p := (p.alloc heap).2.1
    let (_, p, heap) := p.alloc heap
    let p := ((p.write (.inline 0) 5).free (.inline 1) heap).1
    let p := (p.free (.inline 0) heap).1
    (p.alloc heap).1 = .ok (.inline 0) ∧
      p.Mirrors ⟨[0, 1], 2, [.overflow 0], .plain⟩ heap := by
  have h0 : Run (s := ⟨2, true, ⟨8, 8⟩⟩) (α := Nat) _ _ _ :=
    .new Lender.plain (Heap.lends_nil fun _ _ _ => true)
  have h1 := h0.alloc.alloc.alloc
  have h2 := h1.write (q := .inline 0) (by decide) 5
  have h3 := (h2.free (q := .inline 1) (by decide)).free (q := .inline 0) (by decide)
  exact ⟨rfl, h3.refines_stack⟩

end Pool

end ArenaHash
