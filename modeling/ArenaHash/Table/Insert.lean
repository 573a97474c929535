import ArenaHash.Table.Redistribute

/-!
# Insertion

Room is made for the entry first, so the bucket is chosen under the bucket count in force
afterwards. A refused slot leaves the table without the entry but possibly grown.
-/

namespace ArenaHash.Table

variable {s : Shape} {T A : Type} [Allocator A]

/-- Puts a node into a slot of its own. The caller links it. -/
def newNode (t : Table s T A) (node : Node T) (heap : Heap A) :
    Except MemoryError Ref × Table s T A × Heap A :=
  match t.nodes.alloc heap with
  | (.error e, nodes, heap) => (.error e, { t with nodes }, heap)
  | (.ok h, nodes, heap) =>
    (.ok h, { t with nodes := nodes.write h node, size := t.size + 1 }, heap)

/-- Links a new node for the entry in front of its chain. -/
def linkFront (t : Table s T A) (hash : UInt64) (entry : T) (heap : Heap A) :
    Except MemoryError Ref × Table s T A × Heap A :=
  let index := t.bucketOf hash
  match t.newNode ⟨entry, t.buckets.head index, s.caching.keep hash⟩ heap with
  | (.error e, t, heap) => (.error e, t, heap)
  | (.ok h, t, heap) => (.ok h, t.setHead index (some h), heap)

/-- Links a new node for the entry right after the node `first`. -/
def linkAfter (t : Table s T A) (first : Ref) (hash : UInt64) (entry : T) (heap : Heap A) :
    Except MemoryError Ref × Table s T A × Heap A :=
  match t.newNode ⟨entry, t.nodes.next first, s.caching.keep hash⟩ heap with
  | (.error e, t, heap) => (.error e, t, heap)
  | (.ok h, t, heap) => (.ok h, t.setNext first (some h), heap)

/-- Adds an entry at the front of its chain, whatever is in the chain. -/
def insertFront (t : Table s T A) (hash : UInt64) (entry : T) (hasher : Ref → T → UInt64)
    (heap : Heap A) : Except MemoryError Ref × Table s T A × Heap A :=
  match t.makeRoom hasher heap with
  | (.error e, t, heap) => (.error e, t, heap)
  | (.ok (), t, heap) => t.linkFront hash entry heap

/-- Adds an entry right after the first one that matches, or at the front of its chain if there
is none. -/
def insertBeside (t : Table s T A) (hash : UInt64) (entry : T) (test : T → Bool)
    (hasher : Ref → T → UInt64) (heap : Heap A) :
    Except MemoryError Ref × Table s T A × Heap A :=
  match t.makeRoom hasher heap with
  | (.error e, t, heap) => (.error e, t, heap)
  | (.ok (), t, heap) =>
    match t.find? hash test with
    | some first => t.linkAfter first hash entry heap
    | none => t.linkFront hash entry heap

end ArenaHash.Table
