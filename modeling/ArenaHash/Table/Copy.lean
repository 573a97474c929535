import ArenaHash.Table.Erase
import ArenaHash.Table.Insert

/-!
# Copies

A copy has slots of its own and shares only the overflow allocator. It gets an array of the same
bucket count if the table has outgrown its inline array, and then the nodes chain by chain, each
with its stored hash. A copy that cannot be finished is disposed of.
-/

namespace ArenaHash.Table

variable {s : Shape} {T A : Type} [Allocator A]

/-- Appends copies of the nodes to a chain of `copy`, given the last node of that chain. -/
def copyChain (t : Table s T A) (index : Nat) :
    List Ref → (tail : Option Ref) → (copy : Table s T A) → Heap A →
      Except MemoryError Unit × Table s T A × Heap A
  | [], _, copy, heap => (.ok (), copy, heap)
  | h :: hs, tail, copy, heap =>
    match t.node? h with
    | none => copyChain t index hs tail copy heap
    | some n =>
      match copy.newNode { n with next := none } heap with
      | (.error e, copy, heap) => (.error e, copy, heap)
      | (.ok q, copy, heap) =>
        let copy := match tail with
          | some last => copy.setNext last (some q)
          | none => copy.setHead index (some q)
        copyChain t index hs (some q) copy heap

/-- Copies the chains of the given buckets. -/
def copyChains (t : Table s T A) :
    List Nat → (copy : Table s T A) → Heap A → Except MemoryError Unit × Table s T A × Heap A
  | [], copy, heap => (.ok (), copy, heap)
  | index :: rest, copy, heap =>
    match copyChain t index (t.chain index) none copy heap with
    | (.error e, copy, heap) => (.error e, copy, heap)
    | (.ok (), copy, heap) => copyChains t rest copy heap

/-- An empty table with the bucket count, growth plan and allocator of `t`. -/
def copyBase (t : Table s T A) (heap : Heap A) : Except MemoryError (Table s T A) × Heap A :=
  let copy : Table s T A := { new t.delegate with growth := t.growth }
  if t.buckets.isGrown then
    match HeapRow.alloc Shape.headLayout t.bucketCount t.delegate heap with
    | (.error e, heap) => (.error e, heap)
    | (.ok fresh, heap) => (.ok { copy with buckets := (copy.buckets.grow fresh).2 }, heap)
  else (.ok copy, heap)

def copy (t : Table s T A) (heap : Heap A) : Except MemoryError (Table s T A) × Heap A :=
  match t.copyBase heap with
  | (.error e, heap) => (.error e, heap)
  | (.ok base, heap) =>
    match t.copyChains (List.range t.bucketCount) base heap with
    | (.error e, partialCopy, heap) => (.error e, partialCopy.dispose heap)
    | (.ok (), copy, heap) => (.ok copy, heap)

end ArenaHash.Table
