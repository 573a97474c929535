import ArenaHash.Pool.Basic
import ArenaHash.Proofs.Memory.Ledger

/-!
# Live slots of a pool

A pool `Holds` a list of handles if these are the slots it has handed out: the free list leads
through every other slot below the first untouched one and ends there, the counters are those of
the list, and no element is stored in a block outside of it. `loans` are the blocks of the list.

Every operation is given by what it does to the list: `alloc` adds a handle that was not in it,
`free` takes one away, writing to a slot of the list changes that slot only.
-/

namespace ArenaHash

namespace Handle

variable {β : Type}

def index? : Handle β → Option Nat
  | inline index => some index
  | overflow _ => none

def block? : Handle β → Option β
  | inline _ => none
  | overflow block => some block

section

variable (live : List (Handle β))

@[simp] theorem index_inline (i : Nat) :
    (inline i :: live).filterMap index? = i :: live.filterMap index? := rfl

@[simp] theorem index_overflow (b : β) :
    (overflow b :: live).filterMap index? = live.filterMap index? := rfl

@[simp] theorem block_inline (i : Nat) :
    (inline i :: live).filterMap block? = live.filterMap block? := rfl

@[simp] theorem block_overflow (b : β) :
    (overflow b :: live).filterMap block? = b :: live.filterMap block? := rfl

end

theorem mem_index {i : Nat} {live : List (Handle β)} :
    i ∈ live.filterMap index? ↔ .inline i ∈ live := by
  rw [List.mem_filterMap]
  constructor
  · rintro ⟨h, hm, hi⟩
    cases h with
    | inline j =>
      cases hi
      exact hm
    | overflow b => cases hi
  · exact fun hm => ⟨_, hm, rfl⟩

theorem mem_block {b : β} {live : List (Handle β)} :
    b ∈ live.filterMap block? ↔ .overflow b ∈ live := by
  rw [List.mem_filterMap]
  constructor
  · rintro ⟨h, hm, hb⟩
    cases h with
    | inline j => cases hb
    | overflow c =>
      cases hb
      exact hm
  · exact fun hm => ⟨_, hm, rfl⟩

/-- Every handle is an index or a block. -/
theorem length_index_add_block (live : List (Handle β)) :
    (live.filterMap index?).length + (live.filterMap block?).length = live.length := by
  induction live with
  | nil => rfl
  | cons h live ih =>
    cases h with
    | inline i => simp [← ih]; omega
    | overflow b => simp [← ih]; omega

end Handle

namespace Pool

variable {s : Shape} {α A : Type}

/-- The free slots from `head` on, link by link to the end of the list. -/
def FreeChain (p : Pool s α A) : Option Nat → List Nat → Prop
  | head, [] => head = none
  | head, i :: is =>
    head = some i ∧ ∃ next, p.slots[i]? = some (.link next) ∧ p.FreeChain next is

structure Holds (p : Pool s α A) (live : List Ref) : Prop where
  nodup : live.Nodup
  free : ∃ is, p.FreeChain p.freeList is ∧
    (live.filterMap Handle.index? ++ is).Perm (List.range p.untouched)
  untouched_le : p.untouched ≤ s.capacity
  inlineLive : p.inlineLive = (live.filterMap Handle.index?).length
  overflowLive : p.overflowLive = (live.filterMap Handle.block?).length
  stored : ∀ b, (p.blocks.read b).isSome → .overflow b ∈ live
  spills : s.overflow = false → live.filterMap Handle.block? = []

/-- The loans behind the overflow handles of a list. -/
def loans (p : Pool s α A) (live : List Ref) : List (Loan A) :=
  (live.filterMap Handle.block?).map (⟨·, p.delegate, s.layout⟩)

/-! ## Reading and writing -/

theorem read_write (p : Pool s α A) {h : Ref} (hh : ∀ i, h = .inline i → i < s.capacity)
    (g : Ref) (v : α) : (p.write h v).read g = if h = g then some v else p.read g := by
  cases h with
  | inline i =>
    have hi := hh i rfl
    cases g with
    | inline j =>
      by_cases hij : i = j
      · subst hij
        simp [write, read, hi, Slot.value?]
      · simp [write, read, hij]
    | overflow b => simp [write, read]
  | overflow b =>
    cases g with
    | inline j => simp [write, read]
    | overflow c => simp [write, read, Blocks.read_write]

theorem read_modify_of_ne (p : Pool s α A) {h g : Ref} (hne : h ≠ g) (f : α → α) :
    (p.modify h f).read g = p.read g := by
  unfold modify
  cases p.read h with
  | none => rfl
  | some v =>
    cases h with
    | inline i =>
      cases g with
      | inline j =>
        have hij : i ≠ j := fun hij => hne (hij ▸ rfl)
        simp [write, read, hij]
      | overflow b => rfl
    | overflow b =>
      cases g with
      | inline j => rfl
      | overflow c =>
        have hbc : b ≠ c := fun hbc => hne (hbc ▸ rfl)
        simp [write, read, Blocks.read_write, hbc]

theorem read_modify (p : Pool s α A) {h : Ref} (hh : ∀ i, h = .inline i → i < s.capacity)
    (g : Ref) (f : α → α) :
    (p.modify h f).read g = if h = g then (p.read g).map f else p.read g := by
  unfold modify
  by_cases hg : h = g
  · subst hg
    cases hr : p.read h with
    | none => simp [hr]
    | some v => simp [read_write p hh]
  · cases hr : p.read h with
    | none => simp [hg]
    | some v => simp [read_write p hh, hg]

/-- Only a slot that there is can be read. -/
theorem lt_capacity_of_read {p : Pool s α A} {h : Ref} {v : α} (hr : p.read h = some v) :
    ∀ i, h = .inline i → i < s.capacity := by
  rintro i rfl
  apply Nat.lt_of_not_le
  intro hi
  simp [read, Vector.getElem?_eq_none hi] at hr

/-- A change that leaves a view of the elements leaves that view of every slot. -/
theorem map_read_modify {β : Type} (p : Pool s α A) (h : Ref) (f : α → α) (view : α → β)
    (hf : ∀ v, view (f v) = view v) (g : Ref) :
    ((p.modify h f).read g).map view = (p.read g).map view := by
  cases hr : p.read h with
  | none => rw [modify, hr]
  | some v =>
    rw [read_modify p (lt_capacity_of_read hr)]
    split
    · cases p.read g <;> simp [hf]
    · rfl

/-- What a pool keeps of its slots besides their contents. -/
def books (p : Pool s α A) : Option Nat × Nat × Nat × Nat × A :=
  (p.freeList, p.untouched, p.inlineLive, p.overflowLive, p.delegate)

@[simp] theorem books_write (p : Pool s α A) (h : Ref) (v : α) : (p.write h v).books = p.books := by
  cases h <;> rfl

@[simp] theorem books_modify (p : Pool s α A) (h : Ref) (f : α → α) :
    (p.modify h f).books = p.books := by
  unfold modify
  split <;> simp

theorem FreeChain.congr {p q : Pool s α A} {head : Option Nat} {is : List Nat}
    (h : p.FreeChain head is) (heq : ∀ i ∈ is, q.slots[i]? = p.slots[i]?) :
    q.FreeChain head is := by
  induction is generalizing head with
  | nil => exact h
  | cons i is ih =>
    obtain ⟨hh, next, hn, hr⟩ := h
    exact ⟨hh, next, (heq i List.mem_cons_self).trans hn,
      ih hr fun j hj => heq j (List.mem_cons_of_mem _ hj)⟩

namespace Holds

variable {p : Pool s α A} {live : List Ref}

theorem perm {live' : List Ref} (h : p.Holds live) (hp : live.Perm live') : p.Holds live' where
  nodup := hp.nodup h.nodup
  free := by
    obtain ⟨is, hc, hr⟩ := h.free
    exact ⟨is, hc, ((hp.filterMap _).symm.append_right is).trans hr⟩
  untouched_le := h.untouched_le
  inlineLive := h.inlineLive.trans (hp.filterMap _).length_eq
  overflowLive := h.overflowLive.trans (hp.filterMap _).length_eq
  stored b hb := hp.mem_iff.mp (h.stored b hb)
  spills ho := by
    have hb := (hp.filterMap Handle.block?).symm
    rw [h.spills ho] at hb
    exact hb.eq_nil

theorem lt_untouched (h : p.Holds live) {i : Nat} (hi : .inline i ∈ live) : i < p.untouched := by
  obtain ⟨is, -, hr⟩ := h.free
  exact List.mem_range.mp (hr.mem_iff.mp (List.mem_append_left _ (Handle.mem_index.mpr hi)))

theorem lt_capacity (h : p.Holds live) {q : Ref} (hq : q ∈ live) (i : Nat)
    (hi : q = .inline i) : i < s.capacity :=
  Nat.lt_of_lt_of_le (h.lt_untouched (hi ▸ hq)) h.untouched_le

/-- A free slot is not live. -/
theorem not_mem_of_free {is : List Nat}
    (hr : (live.filterMap Handle.index? ++ is).Perm (List.range p.untouched)) {i : Nat}
    (hi : i ∈ is) : .inline i ∉ live := fun hm =>
  (List.nodup_append.mp (hr.symm.nodup List.nodup_range)).2.2 i (Handle.mem_index.mpr hm) i hi rfl

/-- All slots handed out are counted once. -/
theorem live_eq (h : p.Holds live) : p.live = live.length := by
  rw [Pool.live, h.inlineLive, h.overflowLive, Handle.length_index_add_block]

theorem write (h : p.Holds live) {q : Ref} (hq : q ∈ live) (v : α) : (p.write q v).Holds live := by
  cases q with
  | inline i =>
    refine { h with free := ?_ }
    obtain ⟨is, hc, hr⟩ := h.free
    refine ⟨is, hc.congr ?_, hr⟩
    intro j hj
    have hij : i ≠ j := fun hij => not_mem_of_free hr hj (hij ▸ hq)
    simp [Pool.write, hij]
  | overflow b =>
    obtain ⟨is, hc, hr⟩ := h.free
    refine { h with free := ⟨is, hc.congr fun _ _ => rfl, hr⟩, stored := ?_ }
    intro c hc
    simp only [Pool.write, Blocks.read_write] at hc
    split at hc
    · rename_i hbc
      exact hbc ▸ hq
    · exact h.stored c hc

theorem modify (h : p.Holds live) {q : Ref} (hq : q ∈ live) (f : α → α) :
    (p.modify q f).Holds live := by
  unfold Pool.modify
  split
  · exact h.write hq _
  · exact h

/-! ## Handing out -/

theorem new (delegate : A) : (Pool.new delegate : Pool s α A).Holds [] where
  nodup := List.nodup_nil
  free := ⟨[], rfl, by simp [Pool.new]⟩
  untouched_le := Nat.zero_le _
  inlineLive := rfl
  overflowLive := rfl
  stored := by simp [Pool.new, Blocks.read]
  spills _ := rfl

theorem forget (p : Pool s α A) : p.forget.Holds [] where
  nodup := List.nodup_nil
  free := ⟨[], rfl, by simp [Pool.forget]⟩
  untouched_le := Nat.zero_le _
  inlineLive := rfl
  overflowLive := rfl
  stored := by simp [Pool.forget, Blocks.read]
  spills _ := rfl

/-- What is handed out does not depend on who serves blocks. -/
theorem relend (h : p.Holds live) (delegate : A) : Holds { p with delegate } live := by
  obtain ⟨is, hc, hr⟩ := h.free
  exact { h with free := ⟨is, hc.congr fun _ _ => rfl, hr⟩ }

/-- The first slot of the free list is handed out. -/
theorem reuse (h : p.Holds live) {i : Nat} (hi : p.freeList = some i) :
    .inline i ∉ live ∧
      { p with freeList := p.linkAt i, inlineLive := p.inlineLive + 1 }.Holds
        (.inline i :: live) := by
  obtain ⟨is, hc, hr⟩ := h.free
  rw [hi] at hc
  cases is with
  | nil => cases hc
  | cons j js =>
    obtain ⟨hj, next, hn, hjs⟩ := hc
    cases hj
    have hnew : .inline i ∉ live := not_mem_of_free hr List.mem_cons_self
    refine ⟨hnew, ?_⟩
    exact
      { nodup := List.nodup_cons.mpr ⟨hnew, h.nodup⟩
        free := by
          refine ⟨js, ?_, List.perm_middle.symm.trans hr⟩
          have hlink : p.linkAt i = next := by simp [linkAt, hn]
          simp only [hlink]
          exact hjs.congr fun _ _ => rfl
        untouched_le := h.untouched_le
        inlineLive := by simp [h.inlineLive]
        overflowLive := by simp [h.overflowLive]
        stored := fun b hb => List.mem_cons_of_mem _ (h.stored b hb)
        spills := fun ho => by simpa using h.spills ho }

/-- The first untouched slot is handed out. -/
theorem touch (h : p.Holds live) (hlt : p.untouched < s.capacity) :
    .inline p.untouched ∉ live ∧
      { p with untouched := p.untouched + 1, inlineLive := p.inlineLive + 1 }.Holds
        (.inline p.untouched :: live) := by
  have hnew : .inline p.untouched ∉ live := fun hm => Nat.lt_irrefl _ (h.lt_untouched hm)
  refine ⟨hnew, ?_⟩
  exact
    { nodup := List.nodup_cons.mpr ⟨hnew, h.nodup⟩
      free := by
        obtain ⟨is, hc, hr⟩ := h.free
        refine ⟨is, hc.congr fun _ _ => rfl, ?_⟩
        rw [List.range_succ]
        exact (hr.cons _).trans (List.perm_append_singleton _ _).symm
      untouched_le := hlt
      inlineLive := by simp [h.inlineLive]
      overflowLive := by simp [h.overflowLive]
      stored := fun b hb => List.mem_cons_of_mem _ (h.stored b hb)
      spills := fun ho => by simpa using h.spills ho }

/-- A block is handed out. -/
theorem spill (h : p.Holds live) (ho : s.overflow = true) {b : Block}
    (hb : .overflow b ∉ live) :
    { p with overflowLive := p.overflowLive + 1 }.Holds (.overflow b :: live) where
  nodup := List.nodup_cons.mpr ⟨hb, h.nodup⟩
  free := by
    obtain ⟨is, hc, hr⟩ := h.free
    exact ⟨is, hc.congr fun _ _ => rfl, hr⟩
  untouched_le := h.untouched_le
  inlineLive := by simp [h.inlineLive]
  overflowLive := by simp [h.overflowLive]
  stored := fun c hc => List.mem_cons_of_mem _ (h.stored c hc)
  spills := fun ho' => by rw [ho] at ho'; cases ho'

/-- A pool that may not overflow hands out inline slots only. -/
theorem length_of_inline (h : p.Holds live) (ho : s.overflow = false) :
    (live.filterMap Handle.index?).length = live.length := by
  rw [← Handle.length_index_add_block live, h.spills ho, List.length_nil, Nat.add_zero]

/-- A pool without free or untouched slots has handed out every inline slot. -/
theorem inlineLive_of_full (h : p.Holds live) (hf : p.freeList = none)
    (hu : s.capacity ≤ p.untouched) : (live.filterMap Handle.index?).length = s.capacity := by
  obtain ⟨is, hc, hr⟩ := h.free
  rw [hf] at hc
  cases is with
  | nil =>
    have hlen := hr.length_eq
    have := h.untouched_le
    simp only [List.append_nil, List.length_range] at hlen
    omega
  | cons i is => cases hc.1

/-- No more inline slots are handed out than there are. -/
theorem inlineLive_le (h : p.Holds live) :
    (live.filterMap Handle.index?).length ≤ s.capacity := by
  obtain ⟨is, -, hr⟩ := h.free
  have hlen := hr.length_eq
  have := h.untouched_le
  rw [List.length_append, List.length_range] at hlen
  omega

/-- A pool that may not overflow hands out no more slots than there are inline. -/
theorem length_le (h : p.Holds live) (ho : s.overflow = false) : live.length ≤ s.capacity :=
  h.length_of_inline ho ▸ h.inlineLive_le

/-- A pool with a free or an untouched slot has not handed out every inline slot. -/
theorem inlineLive_lt (h : p.Holds live) (hf : p.freeList ≠ none ∨ p.untouched < s.capacity) :
    (live.filterMap Handle.index?).length < s.capacity := by
  obtain ⟨is, hc, hr⟩ := h.free
  have hlen := hr.length_eq
  have := h.untouched_le
  simp only [List.length_append, List.length_range] at hlen
  rcases hf with hf | hf
  · cases is with
    | nil => exact absurd hc hf
    | cons i is =>
      simp only [List.length_cons] at hlen
      omega
  · omega

/-! ## Taking back -/

theorem freeInline (h : p.Holds (.inline i :: live)) :
    { p with
      slots := p.slots.setIfInBounds i (.link p.freeList)
      freeList := some i
      inlineLive := p.inlineLive - 1 }.Holds live where
  nodup := (List.nodup_cons.mp h.nodup).2
  free := by
    obtain ⟨is, hc, hr⟩ := h.free
    have hi : i < s.capacity := h.lt_capacity List.mem_cons_self i rfl
    refine ⟨i :: is, ⟨rfl, p.freeList, by simp [hi], ?_⟩, List.perm_middle.trans hr⟩
    apply hc.congr
    intro j hj
    have hij : i ≠ j := fun hij => not_mem_of_free hr hj (hij ▸ List.mem_cons_self)
    simp [hij]
  untouched_le := h.untouched_le
  inlineLive := by simp [h.inlineLive]
  overflowLive := by simp [h.overflowLive]
  stored := by
    intro b hb
    rcases List.mem_cons.mp (h.stored b hb) with hm | hm
    · cases hm
    · exact hm
  spills := fun ho => by simpa using h.spills ho

theorem freeOverflow (h : p.Holds (.overflow b :: live)) :
    { p with overflowLive := p.overflowLive - 1, blocks := p.blocks.erase b }.Holds live where
  nodup := (List.nodup_cons.mp h.nodup).2
  free := by
    obtain ⟨is, hc, hr⟩ := h.free
    exact ⟨is, hc.congr fun _ _ => rfl, hr⟩
  untouched_le := h.untouched_le
  inlineLive := by simp [h.inlineLive]
  overflowLive := by simp [h.overflowLive]
  stored := by
    intro c hc
    simp only [Blocks.read_erase] at hc
    split at hc
    · cases hc
    · rename_i hbc
      rcases List.mem_cons.mp (h.stored c hc) with hm | hm
      · cases hm
        exact absurd rfl hbc
      · exact hm
  spills := fun ho => by cases h.spills ho

end Holds

/-! ## Allocation -/

variable [Allocator A]

/-- What a request for a slot comes to. -/
inductive Allocation (p : Pool s α A) (heap : Heap A) :
    Except MemoryError Ref × Pool s α A × Heap A → Prop where
  | reuse {i : Nat} (hf : p.freeList = some i) :
    Allocation p heap (.ok (.inline i),
      { p with freeList := p.linkAt i, inlineLive := p.inlineLive + 1 }, heap)
  | touch (hf : p.freeList = none) (hlt : p.untouched < s.capacity) :
    Allocation p heap (.ok (.inline p.untouched),
      { p with untouched := p.untouched + 1, inlineLive := p.inlineLive + 1 }, heap)
  | spill (hf : p.freeList = none) (hle : s.capacity ≤ p.untouched) (ho : s.overflow = true)
    {b : Block} {later : Heap A} (hr : heap.request p.delegate s.layout = (.ok b, later)) :
    Allocation p heap (.ok (.overflow b), { p with overflowLive := p.overflowLive + 1 }, later)
  | refused (hf : p.freeList = none) (hle : s.capacity ≤ p.untouched) (ho : s.overflow = true)
    {e : MemoryError} {later : Heap A}
    (hr : heap.request p.delegate s.layout = (.error e, later)) :
    Allocation p heap (.error e, p, later)
  | full (hf : p.freeList = none) (hle : s.capacity ≤ p.untouched) (ho : s.overflow = false) :
    Allocation p heap (.error (.full s.capacity), p, heap)

theorem allocation (p : Pool s α A) (heap : Heap A) : Allocation p heap (p.alloc heap) := by
  unfold alloc
  split
  · next i hf => exact .reuse hf
  · next hf =>
    split
    · next hlt => exact .touch hf hlt
    · next hlt =>
      have hle : s.capacity ≤ p.untouched := Nat.le_of_not_lt hlt
      split
      · next ho =>
        split
        · next hr => exact .spill hf hle ho hr
        · next hr => exact .refused hf hle ho hr
      · next ho => exact .full hf hle (by simpa using ho)

namespace Holds

variable {p p' : Pool s α A} {live : List Ref} {heap heap' : Heap A} {others : List (Loan A)}

theorem alloc_ok (hp : p.Holds live) (hl : heap.Lends (p.loans live ++ others))
    {q : Ref} (h : p.alloc heap = (.ok q, p', heap')) :
    q ∉ live ∧ p'.Holds (q :: live) ∧ heap'.Lends (p'.loans (q :: live) ++ others) ∧
      heap.Continues heap' none ∧ p'.slots = p.slots ∧ p'.blocks = p.blocks ∧
      p'.delegate = p.delegate := by
  have hcases := allocation p heap
  rw [h] at hcases
  cases hcases with
  | reuse hf =>
    obtain ⟨hnew, hp'⟩ := hp.reuse hf
    exact ⟨hnew, hp', hl, .refl _, rfl, rfl, rfl⟩
  | touch hf hlt =>
    obtain ⟨hnew, hp'⟩ := hp.touch hlt
    exact ⟨hnew, hp', hl, .refl _, rfl, rfl, rfl⟩
  | @spill hf hle ho b later hr =>
    obtain ⟨hb, hl'⟩ := hl.request_ok hr
    have hnew : .overflow b ∉ live := fun hm => by
      have hloan : (⟨b, p.delegate, s.layout⟩ : Loan A) ∈ p.loans live ++ others :=
        List.mem_append_left _ (List.mem_map.mpr ⟨b, Handle.mem_block.mpr hm, rfl⟩)
      exact Nat.ne_of_lt (hl.block_lt hloan) hb
    exact ⟨hnew, hp.spill ho hnew, hl', Heap.continues_of_request_ok hr, rfl, rfl, rfl⟩

/-- A slot is refused if the overflow allocator refuses a block, or if overflow is switched off
and all inline slots are handed out. -/
theorem alloc_error (hp : p.Holds live) (hl : heap.Lends (p.loans live ++ others))
    {e : MemoryError} (h : p.alloc heap = (.error e, p', heap')) :
    p' = p ∧ heap'.Lends (p.loans live ++ others) ∧
      (s.overflow = true ∧ heap.Continues heap' (some e) ∨
        s.overflow = false ∧ heap' = heap ∧ live.length = s.capacity ∧
          e = .full s.capacity) := by
  have hcases := allocation p heap
  rw [h] at hcases
  cases hcases with
  | refused hf hle ho hr =>
    exact ⟨rfl, hl.request_error hr, .inl ⟨ho, Heap.continues_of_request_error hr⟩⟩
  | full hf hle ho =>
    have hlen : live.length = s.capacity :=
      (hp.length_of_inline ho).symm.trans (hp.inlineLive_of_full hf hle)
    exact ⟨rfl, hl, .inr ⟨ho, rfl, hlen, rfl⟩⟩

/-- A pool that may not overflow provides a slot only while an inline one is left. -/
theorem length_lt_of_alloc_ok (hp : p.Holds live) (ho : s.overflow = false) {q : Ref}
    (h : p.alloc heap = (.ok q, p', heap')) : live.length < s.capacity := by
  rw [← hp.length_of_inline ho]
  have hcases := allocation p heap
  rw [h] at hcases
  cases hcases with
  | reuse hf => exact hp.inlineLive_lt (.inl (by rw [hf]; nofun))
  | touch hf hlt => exact hp.inlineLive_lt (.inr hlt)
  | spill hf hle ho' => rw [ho] at ho'; cases ho'

/-- While there are fewer slots in use than inline ones, nothing is asked of the heap. -/
theorem heap_alloc_of_lt (hp : p.Holds live) (hlt : live.length < s.capacity) (heap : Heap A) :
    (p.alloc heap).2.2 = heap := by
  have hcases := allocation p heap
  have hfull : ∀ (_ : p.freeList = none) (_ : s.capacity ≤ p.untouched), False := by
    intro hf hle
    have hle' := List.length_filterMap_le Handle.index? live
    rw [hp.inlineLive_of_full hf hle] at hle'
    omega
  generalize p.alloc heap = result at hcases
  cases hcases with
  | reuse | touch | full => rfl
  | spill hf hle | refused hf hle => exact (hfull hf hle).elim

theorem release {q : Ref} (hp : p.Holds (q :: live))
    (hl : heap.Lends (p.loans (q :: live) ++ others)) :
    (p.free q heap).1.Holds live ∧
      (p.free q heap).2.Lends ((p.free q heap).1.loans live ++ others) := by
  cases q with
  | inline i => exact ⟨hp.freeInline, hl⟩
  | overflow b => exact ⟨hp.freeOverflow, hl.giveBack⟩

end Holds

/-- Returning a slot leaves what is stored in the others. -/
theorem read_free (p : Pool s α A) {q h : Ref} (heap : Heap A) (hne : q ≠ h) :
    (p.free q heap).1.read h = p.read h := by
  cases q with
  | inline i =>
    cases h with
    | inline j =>
      have hij : i ≠ j := fun hij => hne (hij ▸ rfl)
      simp [Pool.free, read, hij]
    | overflow c => rfl
  | overflow b =>
    cases h with
    | inline j => rfl
    | overflow c =>
      have hbc : b ≠ c := fun hbc => hne (hbc ▸ rfl)
      simp [Pool.free, read, Blocks.read_erase, hbc]

@[simp] theorem delegate_free (p : Pool s α A) (q : Ref) (heap : Heap A) :
    (p.free q heap).1.delegate = p.delegate := by
  cases q <;> rfl

end Pool

end ArenaHash
