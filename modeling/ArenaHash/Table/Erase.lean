import ArenaHash.Table.Basic

/-!
# Removal

A node is unlinked by giving its own link to the node before it, or to the bucket if it is the
first; then its slot goes back to the pool.
-/

namespace ArenaHash.Table

variable {s : Shape} {T A : Type} [Allocator A]

/-- Returns the slot of a node that no chain holds any more. -/
def freeNode (t : Table s T A) (h : Ref) (heap : Heap A) : Table s T A × Heap A :=
  let (nodes, heap) := t.nodes.free h heap
  ({ t with nodes, size := t.size - 1 }, heap)

/-- Takes a node out of a chain, given the node before it, and returns its slot. -/
def unlink (t : Table s T A) (index : Nat) (prev : Option Ref) (h : Ref) (heap : Heap A) :
    Table s T A × Heap A :=
  let next := t.nodes.next h
  let t := match prev with
    | some q => t.setNext q next
    | none => t.setHead index next
  t.freeNode h heap

/-- The first node that passes the test, with the one before it. -/
def seek (test : Ref → Bool) : (prev : Option Ref) → List Ref → Option (Option Ref × Ref)
  | _, [] => none
  | prev, h :: hs => if test h then some (prev, h) else seek test (some h) hs

/-- Removes the first matching node of the chain of `hash`. -/
def erase (t : Table s T A) (hash : UInt64) (test : T → Bool) (heap : Heap A) :
    Option T × Table s T A × Heap A :=
  let index := t.bucketOf hash
  match seek (t.matchesAt hash test) none (t.chain index) with
  | some (prev, h) => (t.entryAt? h, t.unlink index prev h heap)
  | none => (none, t, heap)

/-- Removes matching nodes while there is one, `limit` at most, and counts them. -/
def eraseUpTo (hash : UInt64) (test : T → Bool) :
    (limit : Nat) → Table s T A → Heap A → Nat × Table s T A × Heap A
  | 0, t, heap => (0, t, heap)
  | limit + 1, t, heap =>
    match t.erase hash test heap with
    | (some _, t, heap) =>
      let (erased, rest) := eraseUpTo hash test limit t heap
      (erased + 1, rest)
    | (none, t, heap) => (0, t, heap)

/-- Removes every matching node of the chain of `hash`, one after the other. -/
def eraseAll (t : Table s T A) (hash : UInt64) (test : T → Bool) (heap : Heap A) :
    Nat × Table s T A × Heap A :=
  eraseUpTo hash test t.size t heap

/-! ## Filtering

The filter sees an entry, may change it, and says whether it stays. Its state `σ` lets it depend
on the entries it saw before. -/

/-- Filters the rest of a chain, given the last node that stayed. -/
def filterChain {σ : Type} (keep : σ → T → Bool × T × σ) (index : Nat) :
    List Ref → (prev : Option Ref) → σ → Table s T A → Heap A → σ × Table s T A × Heap A
  | [], _, state, t, heap => (state, t, heap)
  | h :: hs, prev, state, t, heap =>
    match t.entryAt? h with
    | none => filterChain keep index hs prev state t heap
    | some entry =>
      let (kept, entry, state) := keep state entry
      let t := t.setEntry h entry
      if kept then filterChain keep index hs (some h) state t heap
      else
        let (t, heap) := t.unlink index prev h heap
        filterChain keep index hs prev state t heap

/-- Filters the entries in bucket order. -/
def filter {σ : Type} (t : Table s T A) (keep : σ → T → Bool × T × σ) (state : σ)
    (heap : Heap A) : σ × Table s T A × Heap A :=
  (List.range t.bucketCount).foldl
    (fun (state, t, heap) index => filterChain keep index (t.chain index) none state t heap)
    (state, t, heap)

/-! ## Emptying -/

/-- Takes the first node out of the first chain at or after `position`; answers the entry and
where to go on. -/
def pop (t : Table s T A) (position : Nat) (heap : Heap A) :
    Option T × Nat × Table s T A × Heap A :=
  let ahead := List.range' position (t.bucketCount - position)
  match ahead.findSome? fun index => (t.buckets.head index).map (index, ·) with
  | some (index, h) =>
    let rest := (t.setHead index (t.nodes.next h)).freeNode h heap
    (t.entryAt? h, index, rest)
  | none => (none, max position t.bucketCount, t, heap)

/-- Returns every slot of a bucket, front to back. -/
def clearBucket (t : Table s T A) (index : Nat) (heap : Heap A) : Table s T A × Heap A :=
  (t.chain index).foldl (fun (t, heap) h => t.freeNode h heap) (t.setHead index none, heap)

/-- Removes every entry. The bucket array stays. -/
def clear (t : Table s T A) (heap : Heap A) : Table s T A × Heap A :=
  (List.range t.bucketCount).foldl (fun (t, heap) index => t.clearBucket index heap) (t, heap)

/-- Goes back to the inline bucket array. -/
def shrink (t : Table s T A) (heap : Heap A) : Table s T A × Heap A :=
  let (old, buckets) := t.buckets.shrink
  ({ t with buckets }, HeapRow.release? Shape.headLayout old t.delegate heap)

/-- Removes every entry and goes back to the inline bucket array and untouched slots. -/
def renew (t : Table s T A) (heap : Heap A) : Table s T A × Heap A :=
  let (t, heap) := t.clear heap
  let (t, heap) := t.shrink heap
  ({ t with nodes := t.nodes.forget, growth := t.growth.retarget s.buckets }, heap)

/-- Forgets every entry. The bucket array is returned, the overflow blocks of nodes are not. -/
def abandon (t : Table s T A) (heap : Heap A) : Table s T A × Heap A :=
  let (t, heap) := t.shrink heap
  ({ t with nodes := t.nodes.forget, size := 0, growth := t.growth.retarget s.buckets }, heap)

/-- The heap after the table is gone. -/
def dispose (t : Table s T A) (heap : Heap A) : Heap A :=
  let (t, heap) := t.clear heap
  (t.shrink heap).2

end ArenaHash.Table
