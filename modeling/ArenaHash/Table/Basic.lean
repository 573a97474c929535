import ArenaHash.Growth.Basic
import ArenaHash.Pool.Basic
import ArenaHash.Table.Caching
import ArenaHash.Table.Heads

/-!
# Hash tables

A table keeps its entries in the slots of a pool. Each bucket is a chain of nodes: the bucket
array holds the handle of the first one and every node the handle of the next. The table knows
nothing about keys. Whoever looks for an entry brings its hash and a test, and whoever may cause
growth brings a function that hashes stored entries; that function also sees where an entry is,
so nothing here depends on equal entries having equal hashes.
-/

namespace ArenaHash

/-- What a table of a given type never changes. -/
structure Table.Shape where
  /-- The number of inline slots. -/
  capacity : Nat
  /-- The number of inline buckets. -/
  buckets : Nat
  overflow : Bool
  caching : Caching
  /-- The layout of a node, with its hash or without. -/
  layoutUnder : Caching → Layout
  two_le_buckets : 2 ≤ buckets

namespace Table.Shape

def nodeLayout (s : Shape) : Layout := s.layoutUnder s.caching

/-- The layout of one slot of a bucket array. -/
def headLayout : Layout := ⟨16, 8⟩

def pool (s : Shape) : Pool.Shape := ⟨s.capacity, s.overflow, s.nodeLayout⟩

/-- The growth plan of a table that was just built. -/
def growth (s : Shape) : Growth :=
  if s.overflow then .new Growth.defaultLoad s.buckets else .fixed s.buckets

end Table.Shape

structure Node (T : Type) where
  entry : T
  next : Option Ref
  hash : Option UInt64

structure Table (s : Table.Shape) (T A : Type) where
  nodes : Pool s.pool (Node T) A
  buckets : Buckets Ref
  size : Nat
  growth : Growth

/-! ## Chains -/

/-- The link out of a node. -/
def Pool.next {p : Pool.Shape} {T A : Type} (nodes : Pool p (Node T) A) (h : Ref) : Option Ref :=
  (nodes.read h).bind Node.next

/-- The nodes along a chain, up to `limit` of them. -/
def Pool.follow {p : Pool.Shape} {T A : Type} (nodes : Pool p (Node T) A) :
    (limit : Nat) → Option Ref → List Ref
  | 0, _ => []
  | _, none => []
  | limit + 1, some h => h :: nodes.follow limit (nodes.next h)

namespace Table

variable {s : Shape} {T A : Type}

/-- A table without entries and without overflow memory. -/
def new (delegate : A) : Table s T A where
  nodes := .new delegate
  buckets := .new s.buckets
  size := 0
  growth := s.growth

def delegate (t : Table s T A) : A := t.nodes.delegate

def bucketCount (t : Table s T A) : Nat := t.buckets.count

/-- The bucket of a hash. -/
def bucketOf (t : Table s T A) (hash : UInt64) : Nat := hash.toNat % t.bucketCount

/-- Whether a node or the bucket array lives in overflow memory. -/
def usesOverflow (t : Table s T A) : Bool := 0 < t.nodes.overflowLive || t.buckets.isGrown

def loadFactor (t : Table s T A) : Binary32 := .ofNat t.size / .ofNat t.bucketCount

def node? (t : Table s T A) (h : Ref) : Option (Node T) := t.nodes.read h

def entryAt? (t : Table s T A) (h : Ref) : Option T := (t.node? h).map Node.entry

/-- The nodes of a bucket, front to back. -/
def chain (t : Table s T A) (index : Nat) : List Ref :=
  t.nodes.follow t.size (t.buckets.head index)

/-- All nodes, bucket by bucket. -/
def refs (t : Table s T A) : List Ref := (List.range t.bucketCount).flatMap t.chain

/-- All entries, bucket by bucket. -/
def toList (t : Table s T A) : List T := t.refs.filterMap t.entryAt?

/-- The length of a chain; zero past the last bucket. -/
def chainLength (t : Table s T A) (index : Nat) : Nat := (t.chain index).length

/-! ## Lookup -/

/-- Whether a node is one that is looked for. A stored hash is compared before the entry. -/
def isMatch (hash : UInt64) (test : T → Bool) (n : Node T) : Bool :=
  n.hash.all (· == hash) && test n.entry

def matchesAt (t : Table s T A) (hash : UInt64) (test : T → Bool) (h : Ref) : Bool :=
  (t.node? h).any (isMatch hash test)

/-- The first matching node in the chain of `hash`. -/
def find? (t : Table s T A) (hash : UInt64) (test : T → Bool) : Option Ref :=
  (t.chain (t.bucketOf hash)).find? (t.matchesAt hash test)

/-- The number of matching nodes in the chain of `hash`. -/
def count (t : Table s T A) (hash : UInt64) (test : T → Bool) : Nat :=
  (t.chain (t.bucketOf hash)).countP (t.matchesAt hash test)

/-- The first matching node in the chain of `hash` and those that match right after it. -/
def equalRun (t : Table s T A) (hash : UInt64) (test : T → Bool) : List Ref :=
  ((t.chain (t.bucketOf hash)).dropWhile (!t.matchesAt hash test ·)).takeWhile
    (t.matchesAt hash test)

/-! ## Changes to single nodes -/

def setHead (t : Table s T A) (index : Nat) (head : Option Ref) : Table s T A :=
  { t with buckets := t.buckets.setHead index head }

def setNext (t : Table s T A) (h : Ref) (next : Option Ref) : Table s T A :=
  { t with nodes := t.nodes.modify h fun n => { n with next } }

def setEntry (t : Table s T A) (h : Ref) (entry : T) : Table s T A :=
  { t with nodes := t.nodes.modify h fun n => { n with entry } }

/-! ## Settings -/

/-- Replaces the largest load factor. A table that may not overflow keeps its own, and so does
any table given a number that is not finite and positive. -/
def setMaxLoad (t : Table s T A) (maxLoad : Binary32) : Table s T A :=
  if s.overflow then
    match t.growth.setMaxLoad? maxLoad t.bucketCount with
    | some growth => { t with growth }
    | none => t
  else t

/-- Replaces the overflow allocator. While nodes or the bucket array are in overflow memory only
an equal one is accepted. -/
def setDelegate [Allocator A] (t : Table s T A) (delegate : A) :
    Except MemoryError Unit × Table s T A :=
  if t.buckets.isGrown && delegate != t.delegate then
    (.error (.busy (Allocator.name t.delegate) (t.nodes.overflowLive + 1)), t)
  else
    let (result, nodes) := t.nodes.setDelegate delegate
    (result, { t with nodes })

/-! ## Self-check -/

/-- Whether a node of bucket `index` is where its hash puts it, with the right stored hash. -/
def wellPlaced (t : Table s T A) (hasher : Ref → T → UInt64) (index : Nat) (h : Ref) : Bool :=
  (t.node? h).any fun n =>
    let hash := hasher h n.entry
    n.hash.all (· == hash) && t.bucketOf hash == index

/-- Checks that the sentinel is empty, that every node is well placed, and that the counts of
nodes, entries and slots agree. A chain is read up to one node more than there may be. -/
def check (t : Table s T A) (hasher : Ref → T → UInt64) : Bool :=
  let chains := (List.range t.bucketCount).map fun index =>
    (index, t.nodes.follow (t.size + 1) (t.buckets.head index))
  t.buckets.sentinelEmpty
    && chains.all (fun (index, hs) => hs.all (t.wellPlaced hasher index))
    && (chains.flatMap Prod.snd).length == t.size
    && t.nodes.live == t.size

end Table

end ArenaHash
