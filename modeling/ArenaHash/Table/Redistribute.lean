import ArenaHash.Table.Basic

/-!
# Redistribution

A growing table moves every node to a larger bucket array without moving any entry: the nodes are
taken off their chains in order and then, last one first, put at the front of their new chains.
Two nodes that share a bucket afterwards are in the order they had before.
-/

namespace ArenaHash.Table

variable {s : Shape} {T A : Type} [Allocator A]

/-- The stored hash of a node, or else the hash computed from its entry. -/
def hashAt (t : Table s T A) (hasher : Ref → T → UInt64) (h : Ref) : UInt64 :=
  match t.node? h with
  | some n => n.hash.getD (hasher h n.entry)
  | none => 0

/-- Links a node in front of a chain. -/
def pushFront (t : Table s T A) (index : Nat) (h : Ref) : Table s T A :=
  (t.setNext h (t.buckets.head index)).setHead index (some h)

/-- Links each of the nodes in front of the chain that its hash belongs to. -/
def place (t : Table s T A) (hasher : Ref → T → UInt64) (hs : List Ref) : Table s T A :=
  hs.foldl (fun t h => t.pushFront (t.bucketOf (t.hashAt hasher h)) h) t

/-- Moves every node to a new array of `count` buckets. A table that is refused the array stays
as it is. -/
def redistribute (t : Table s T A) (count : Nat) (hasher : Ref → T → UInt64) (heap : Heap A) :
    Except MemoryError Unit × Table s T A × Heap A :=
  match HeapRow.alloc Shape.headLayout count t.delegate heap with
  | (.error e, heap) => (.error e, t, heap)
  | (.ok fresh, heap) =>
    let pending := t.refs.reverse
    let (old, buckets) := t.buckets.grow fresh
    (.ok (), place { t with buckets } hasher pending,
      HeapRow.release? Shape.headLayout old t.delegate heap)

/-- Grows the bucket array if one more entry asks for it. If the array is refused, the limit goes
back to that of the present bucket count. -/
def makeRoom (t : Table s T A) (hasher : Ref → T → UInt64) (heap : Heap A) :
    Except MemoryError Unit × Table s T A × Heap A :=
  if s.overflow then
    match t.growth.advise t.bucketCount t.size 1 with
    | (none, growth) => (.ok (), { t with growth }, heap)
    | (some count, growth) =>
      match redistribute { t with growth } count hasher heap with
      | (.ok (), t, heap) => (.ok (), t, heap)
      | (.error e, t, heap) =>
        (.error e, { t with growth := t.growth.retarget t.bucketCount }, heap)
  else (.ok (), t, heap)

end ArenaHash.Table
