import ArenaHash.Memory.Heap
import ArenaHash.Memory.Word

/-!
# Bucket arrays

A bucket array is a row of chain heads closed by one more slot, the sentinel, which stays empty.
A table starts with a fixed inline array; a larger one lives in a block of an overflow allocator
and takes its place until the table goes back to the inline array.
-/

namespace ArenaHash

/-- Chain heads and the sentinel, in one row of slots. -/
structure HeadRow (P : Type) where
  slots : Array (Option P)

namespace HeadRow

variable {P : Type}

def empty (count : Nat) : HeadRow P := ⟨.replicate (count + 1) none⟩

/-- The number of heads, the sentinel not counted. -/
def count (r : HeadRow P) : Nat := r.slots.size - 1

/-- A head; past the last one there is none. -/
def head (r : HeadRow P) (index : Nat) : Option P :=
  if index < r.count then r.slots[index]?.join else none

/-- Replaces a head. The sentinel is out of reach. -/
def setHead (r : HeadRow P) (index : Nat) (head : Option P) : HeadRow P :=
  if index < r.count then ⟨r.slots.setIfInBounds index head⟩ else r

/-- Gives every head one value. -/
def fill (r : HeadRow P) (head : Option P) : HeadRow P :=
  ⟨r.slots.mapIdx fun index slot => if index < r.count then head else slot⟩

/-- The heads and the sentinel. -/
def toList (r : HeadRow P) : List (Option P) := r.slots.toList

def heads (r : HeadRow P) : List (Option P) := r.toList.take r.count

def sentinelEmpty (r : HeadRow P) : Bool :=
  match r.slots.back? with
  | some none => true
  | _ => false

theorem count_empty (n : Nat) : (empty n : HeadRow P).count = n := by
  simp [empty, count]

theorem count_setHead (r : HeadRow P) (i : Nat) (h : Option P) :
    (r.setHead i h).count = r.count := by
  unfold setHead
  split <;> simp [count]

theorem head_setHead (r : HeadRow P) (i j : Nat) (h : Option P) :
    (r.setHead i h).head j = if i = j ∧ i < r.count then h else r.head j := by
  have hc := count_setHead r i h
  unfold head
  rw [hc]
  by_cases hi : i < r.count
  · have hs : i < r.slots.size := by
      unfold count at hi
      omega
    by_cases hij : i = j
    · subst hij
      simp [setHead, hi, hs]
    · simp [setHead, hi, hij]
  · simp [setHead, hi]

end HeadRow

/-- A bucket array in an overflow block. -/
structure HeapRow (P : Type) where
  block : Block
  row : HeadRow P

namespace HeapRow

variable {P A : Type} [Allocator A]

/-- The error for an array whose size is beyond any block. -/
def tooLarge (slot : Layout) (lender : A) : MemoryError :=
  .refused (Allocator.name lender) maxWord slot.align

/-- Requests a block for `count` empty heads and the sentinel. -/
def alloc (slot : Layout) (count : Nat) (lender : A) (heap : Heap A) :
    Except MemoryError (HeapRow P) × Heap A :=
  match slot.array? (count + 1) with
  | none => (.error (tooLarge slot lender), heap)
  | some layout =>
    match heap.request lender layout with
    | (.ok block, heap) => (.ok ⟨block, .empty count⟩, heap)
    | (.error e, heap) => (.error e, heap)

/-- Returns the block. -/
def release (slot : Layout) (r : HeapRow P) (lender : A) (heap : Heap A) : Heap A :=
  match slot.array? (r.row.count + 1) with
  | some layout => heap.giveBack lender r.block layout
  | none => heap

/-- Returns the block of an array that is no longer in force, if there is one. -/
def release? (slot : Layout) (r : Option (HeapRow P)) (lender : A) (heap : Heap A) : Heap A :=
  match r with
  | some r => r.release slot lender heap
  | none => heap

end HeapRow

/-- The inline array, and the overflow array that stands in for it if there is one. -/
structure Buckets (P : Type) where
  inline : HeadRow P
  grown : Option (HeapRow P)

namespace Buckets

variable {P : Type}

def new (count : Nat) : Buckets P := ⟨.empty count, none⟩

/-- The array in force. -/
def row (b : Buckets P) : HeadRow P :=
  match b.grown with
  | some heap => heap.row
  | none => b.inline

def isGrown (b : Buckets P) : Bool := b.grown.isSome

/-- Changes the array in force. -/
def modifyRow (b : Buckets P) (f : HeadRow P → HeadRow P) : Buckets P :=
  match b.grown with
  | some heap => { b with grown := some { heap with row := f heap.row } }
  | none => { b with inline := f b.inline }

def count (b : Buckets P) : Nat := b.row.count

def head (b : Buckets P) (index : Nat) : Option P := b.row.head index

def setHead (b : Buckets P) (index : Nat) (head : Option P) : Buckets P :=
  b.modifyRow (·.setHead index head)

def sentinelEmpty (b : Buckets P) : Bool := b.row.sentinelEmpty

theorem row_modifyRow (b : Buckets P) (f : HeadRow P → HeadRow P) :
    (b.modifyRow f).row = f b.row := by
  unfold modifyRow row
  cases b.grown <;> rfl

/-- Puts an overflow array in force and hands back the one before it. -/
def grow (b : Buckets P) (fresh : HeapRow P) : Option (HeapRow P) × Buckets P :=
  (b.grown, { inline := b.inline.fill none, grown := some fresh })

/-- Goes back to the inline array, now empty, and hands back the overflow array. -/
def shrink (b : Buckets P) : Option (HeapRow P) × Buckets P :=
  (b.grown, { inline := b.inline.fill none, grown := none })

end Buckets

end ArenaHash
