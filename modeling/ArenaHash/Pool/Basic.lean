import ArenaHash.Pool.Blocks
import ArenaHash.Pool.Handle

/-!
# Pools of slots

A pool hands out equally large slots for elements: a fixed number of inline slots first, then, if
overflow is switched on, blocks of an overflow allocator. Fresh inline slots come in index order.
Returned ones form a list, last in first out, whose links are kept in the slots themselves, and
are handed out again before any fresh one.

The pool manages slots only. Writing an element into a slot, and not using a slot after its
return, is up to the caller.
-/

namespace ArenaHash

/-- What a pool of a given type never changes: the number of inline slots, whether it may
overflow, and the layout of one element. -/
structure Pool.Shape where
  capacity : Nat
  overflow : Bool
  layout : Layout

/-- An inline slot holds nothing yet, a free-list link, or an element. -/
inductive Slot (α : Type) where
  | vacant
  | link (next : Option Nat)
  | value (v : α)

def Slot.value? {α : Type} : Slot α → Option α
  | value v => some v
  | _ => none

structure Pool (s : Pool.Shape) (α A : Type) where
  slots : Vector (Slot α) s.capacity
  /-- The first slot of the free list. -/
  freeList : Option Nat
  /-- The first slot that was never handed out. -/
  untouched : Nat
  /-- The number of inline slots handed out. -/
  inlineLive : Nat
  /-- The number of overflow blocks handed out. -/
  overflowLive : Nat
  delegate : A
  /-- The elements in overflow blocks. -/
  blocks : Blocks α

namespace Pool

variable {s : Shape} {α A : Type}

/-- A pool with every inline slot free. -/
def new (delegate : A) : Pool s α A where
  slots := .replicate s.capacity .vacant
  freeList := none
  untouched := 0
  inlineLive := 0
  overflowLive := 0
  delegate := delegate
  blocks := []

/-- Slots handed out, of either source. -/
def live (p : Pool s α A) : Nat := p.inlineLive + p.overflowLive

def inlineLeft (p : Pool s α A) : Nat := s.capacity - p.inlineLive

/-- The slot that follows a free one in the free list. -/
def linkAt (p : Pool s α A) (index : Nat) : Option Nat :=
  match p.slots[index]? with
  | some (.link next) => next
  | _ => none

def read (p : Pool s α A) : Ref → Option α
  | .inline index => p.slots[index]?.bind Slot.value?
  | .overflow block => p.blocks.read block

def write (p : Pool s α A) (h : Ref) (v : α) : Pool s α A :=
  match h with
  | .inline index => { p with slots := p.slots.setIfInBounds index (.value v) }
  | .overflow block => { p with blocks := p.blocks.write block v }

/-- Applies `f` to the element in a slot. -/
def modify (p : Pool s α A) (h : Ref) (f : α → α) : Pool s α A :=
  match p.read h with
  | some v => p.write h (f v)
  | none => p

/-- Hands out a slot. A pool that cannot provide one stays as it is. -/
def alloc [Allocator A] (p : Pool s α A) (heap : Heap A) :
    Except MemoryError Ref × Pool s α A × Heap A :=
  match p.freeList with
  | some index =>
    (.ok (.inline index),
      { p with freeList := p.linkAt index, inlineLive := p.inlineLive + 1 }, heap)
  | none =>
    if p.untouched < s.capacity then
      (.ok (.inline p.untouched),
        { p with untouched := p.untouched + 1, inlineLive := p.inlineLive + 1 }, heap)
    else if s.overflow then
      match heap.request p.delegate s.layout with
      | (.ok block, heap) =>
        (.ok (.overflow block), { p with overflowLive := p.overflowLive + 1 }, heap)
      | (.error e, heap) => (.error e, p, heap)
    else (.error (.full s.capacity), p, heap)

/-- Takes a slot back; the caller has not returned it before. -/
def free [Allocator A] (p : Pool s α A) (h : Ref) (heap : Heap A) : Pool s α A × Heap A :=
  match h with
  | .inline index =>
    ({ p with
        slots := p.slots.setIfInBounds index (.link p.freeList)
        freeList := some index
        inlineLive := p.inlineLive - 1 }, heap)
  | .overflow block =>
    ({ p with overflowLive := p.overflowLive - 1, blocks := p.blocks.erase block },
      heap.giveBack p.delegate block s.layout)

/-- Makes every inline slot free, in index order. Overflow blocks still outstanding are
forgotten, not returned. -/
def forget (p : Pool s α A) : Pool s α A :=
  { p with
    freeList := none
    untouched := 0
    inlineLive := 0
    overflowLive := 0
    blocks := [] }

/-- Replaces the overflow allocator. As outstanding blocks are returned through the new one, it
has to be equal to the old one unless there are none. -/
def setDelegate [Allocator A] (p : Pool s α A) (delegate : A) :
    Except MemoryError Unit × Pool s α A :=
  if 0 < p.overflowLive && delegate != p.delegate then
    (.error (.busy (Allocator.name p.delegate) p.overflowLive), p)
  else (.ok (), { p with delegate := delegate })

/-- Takes over the overflow allocator of another pool. -/
def copyDelegate [Allocator A] (p other : Pool s α A) : Except MemoryError Unit × Pool s α A :=
  p.setDelegate other.delegate

end Pool

end ArenaHash
