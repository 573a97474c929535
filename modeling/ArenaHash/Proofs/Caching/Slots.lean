import ArenaHash.Proofs.Caching.Heaps

/-!
# Slots without hashes

`nodes.bare` has the same nodes in the same slots, without the hashes that they keep. What a pool
does with its slots does not depend on them.
-/

namespace ArenaHash

def Node.bare {T : Type} (n : Node T) : Node T := { n with hash := none }

def Slot.map {α β : Type} (g : α → β) : Slot α → Slot β
  | .vacant => .vacant
  | .link next => .link next
  | .value v => .value (g v)

theorem Slot.value?_map {α β : Type} (g : α → β) (x : Slot α) :
    (x.map g).value? = x.value?.map g := by
  cases x <;> rfl

namespace Blocks

variable {α β : Type}

def map (g : α → β) (bs : Blocks α) : Blocks β := List.map (fun (b, v) => (b, g v)) bs

theorem read_map (g : α → β) (bs : Blocks α) (b : Block) :
    (bs.map g).read b = (bs.read b).map g := by
  induction bs with
  | nil => rfl
  | cons x bs ih =>
    unfold map at ih ⊢
    simp only [List.map_cons, read, ih]
    split <;> rfl

theorem write_map (g : α → β) (bs : Blocks α) (b : Block) (v : α) :
    (bs.write b v).map g = (bs.map g).write b (g v) := by
  induction bs with
  | nil => rfl
  | cons x bs ih =>
    unfold map at ih ⊢
    simp only [List.map_cons, write]
    split
    · rfl
    · rw [List.map_cons, ih]

theorem erase_map (g : α → β) (bs : Blocks α) (b : Block) :
    (bs.erase b).map g = (bs.map g).erase b := by
  induction bs with
  | nil => rfl
  | cons x bs ih =>
    unfold map at ih ⊢
    simp only [List.map_cons, erase]
    split
    · exact ih
    · rw [List.map_cons, ih]

end Blocks

namespace Pool

variable {s : Table.Shape} {T A : Type}

def bare (nodes : Pool s.pool (Node T) A) : Pool s.bare.pool (Node T) A where
  slots := nodes.slots.map (Slot.map Node.bare)
  freeList := nodes.freeList
  untouched := nodes.untouched
  inlineLive := nodes.inlineLive
  overflowLive := nodes.overflowLive
  delegate := nodes.delegate
  blocks := nodes.blocks.map Node.bare

variable (nodes : Pool s.pool (Node T) A)

theorem slots_bare (i : Nat) : nodes.bare.slots[i]? = nodes.slots[i]?.map (Slot.map Node.bare) :=
  Vector.getElem?_map

@[simp] theorem read_bare (q : Ref) : nodes.bare.read q = (nodes.read q).map Node.bare := by
  cases q with
  | inline i =>
    rw [read, read, slots_bare]
    cases nodes.slots[i]? with
    | none => rfl
    | some x => exact Slot.value?_map _ x
  | overflow b => exact Blocks.read_map _ _ b

@[simp] theorem next_bare (q : Ref) : nodes.bare.next q = nodes.next q := by
  rw [next, next, read_bare]
  cases nodes.read q <;> rfl

@[simp] theorem follow_bare (limit : Nat) (head : Option Ref) :
    nodes.bare.follow limit head = nodes.follow limit head := by
  induction limit generalizing head with
  | zero => cases head <;> rfl
  | succ limit ih =>
    cases head with
    | none => rfl
    | some q => simp only [follow, ih, next_bare]

@[simp] theorem linkAt_bare (i : Nat) : nodes.bare.linkAt i = nodes.linkAt i := by
  rw [linkAt, linkAt, slots_bare]
  rcases nodes.slots[i]? with _ | _ | _ | _ <;> rfl

theorem bare_write (q : Ref) (n : Node T) : (nodes.write q n).bare = nodes.bare.write q n.bare := by
  cases q with
  | inline i =>
    have hslots : (nodes.slots.setIfInBounds i (.value n)).map (Slot.map Node.bare) =
        (nodes.slots.map (Slot.map Node.bare)).setIfInBounds i (.value n.bare) :=
      Vector.map_setIfInBounds
    exact congrArg (fun slots => ({ nodes.bare with slots } : Pool s.bare.pool (Node T) A)) hslots
  | overflow b => simp only [write, bare, Blocks.write_map]

/-- A change that does not touch the hash. -/
theorem bare_modify (q : Ref) {f : Node T → Node T} (hf : ∀ n, (f n).bare = f n.bare) :
    (nodes.modify q f).bare = nodes.bare.modify q f := by
  rw [modify, modify, read_bare]
  cases nodes.read q with
  | none => rfl
  | some n =>
    have hw := nodes.bare_write q (f n)
    rw [hf] at hw
    exact hw

theorem bare_new (delegate : A) : (new delegate : Pool s.pool (Node T) A).bare = new delegate := by
  have hslots : (Vector.replicate s.capacity (.vacant : Slot (Node T))).map (Slot.map Node.bare) =
      .replicate s.capacity .vacant := Vector.map_replicate
  unfold new bare
  congr

@[simp] theorem setDelegate_bare [Allocator A] (delegate : A) :
    nodes.bare.setDelegate delegate =
      ((nodes.setDelegate delegate).1, (nodes.setDelegate delegate).2.bare) := by
  unfold setDelegate bare
  split <;> rfl

variable [Allocator A] {heap heap' : Heap A} (h : heap.Alike s heap')
include h

theorem free_follows (q : Ref) :
    Follows s bare (nodes.free q heap) (nodes.bare.free q heap') := by
  cases q with
  | inline i =>
    have hslots : (nodes.slots.setIfInBounds i (.link nodes.freeList)).map (Slot.map Node.bare) =
        (nodes.slots.map (Slot.map Node.bare)).setIfInBounds i (.link nodes.freeList) :=
      Vector.map_setIfInBounds
    refine ⟨?_, h⟩
    exact (congrArg (fun slots => ({ nodes.bare with
      slots, freeList := some i, inlineLive := nodes.inlineLive - 1 } :
        Pool s.bare.pool (Node T) A)) hslots).symm
  | overflow b =>
    refine ⟨?_, h.giveBack _ .node b⟩
    simp only [free, bare, Blocks.erase_map]

theorem alloc_matches
    (hsame : (nodes.alloc heap).2.2.SameDecisions (nodes.bare.alloc heap').2.2) :
    Matches s (AlikeAnswer s) bare (nodes.alloc heap) (nodes.bare.alloc heap') := by
  have hfree : nodes.bare.freeList = nodes.freeList := rfl
  have huntouched : nodes.bare.untouched = nodes.untouched := rfl
  have hcapacity : s.bare.pool.capacity = s.pool.capacity := rfl
  have hoverflow : s.bare.pool.overflow = s.pool.overflow := rfl
  have hdelegate : nodes.bare.delegate = nodes.delegate := rfl
  have hr : (heap.request nodes.delegate s.pool.layout).2.SameDecisions
        (heap'.request nodes.delegate s.bare.pool.layout).2 →
      AlikeOutcome s (heap.request nodes.delegate s.pool.layout)
        (heap'.request nodes.delegate s.bare.pool.layout) := h.request nodes.delegate .node
  revert hsame
  unfold alloc
  simp only [hfree, huntouched, hcapacity, hoverflow, hdelegate, linkAt_bare]
  split
  · exact fun _ => ⟨.ok _, rfl, h⟩
  · split
    · exact fun _ => ⟨.ok _, rfl, h⟩
    · split
      · generalize heap.request nodes.delegate s.pool.layout = out,
          heap'.request nodes.delegate s.bare.pool.layout = out' at hr ⊢
        obtain ⟨_ | b, later⟩ := out <;> obtain ⟨_ | b', later'⟩ := out' <;> intro hsame <;>
          obtain ⟨ha, hk⟩ := hr hsame <;> cases ha
        · next he => exact ⟨.error he, rfl, hk⟩
        · exact ⟨.ok _, rfl, hk⟩
      · exact fun _ => ⟨.error (.same _), rfl, h⟩

omit h in
theorem before_alloc (heap : Heap A) : heap.Before (nodes.alloc heap).2.2 := by
  have hr := heap.before_request nodes.delegate s.pool.layout
  unfold alloc
  split
  · exact .refl heap
  · split
    · exact .refl heap
    · split
      · split
        · next hreq => rwa [hreq] at hr
        · next hreq => rwa [hreq] at hr
      · exact .refl heap

end Pool

end ArenaHash
