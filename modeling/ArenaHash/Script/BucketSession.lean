import ArenaHash.Script.Answer
import ArenaHash.Script.Element
import ArenaHash.Table.Heads

/-!
# Sessions with a bucket array

A session keeps one bucket array whose heads are small numbers. A grown array is returned through
the allocator that served it.
-/

namespace ArenaHash

inductive BucketCommand where
  | set (index : Nat) (head : Option Nat)
  | fill (head : Option Nat)
  | clear
  /-- Puts a new array of `count` heads in force. -/
  | grow (count : Nat) (lender : Option Nat)
  | shrink
  | move
  | info
  | debug (pretty : Bool)

structure BucketSession where
  world : World
  buckets : Buckets Nat
  /-- The allocator that served the grown array. -/
  owner : Lender

namespace BucketSession

/-- The layout of one slot. -/
def slot : Layout := ⟨8, 4⟩

def new (count : Nat) (specs : List LenderSpec) : BucketSession :=
  ⟨.new specs, .new count, .default⟩

def rowListing (count : Nat) : Listing :=
  .record "HeapBuckets" [("ptr", addressMark), ("count", toString count)]

def listing (b : Buckets Nat) : Listing :=
  .record "FixedBucketStorage"
    [("bucket_count", toString b.count), ("spilled", toString b.isGrown)]

def info (b : Buckets Nat) : BucketInfo where
  sentinelEmpty := b.sentinelEmpty
  slots := b.row.toList
  isInline := !b.isGrown

/-- Takes over new buckets and returns the array that they replaced. -/
def replace (st : BucketSession) (change : Option (HeapRow Nat) × Buckets Nat)
    (heap : Heap Lender) (owner : Lender) : BucketSession :=
  ⟨{ st.world with heap := HeapRow.release? slot change.1 st.owner heap }, change.2, owner⟩

def step (st : BucketSession) : BucketCommand → BucketSession × Answer
  | .set index head =>
    ({ st with buckets := st.buckets.setHead index head }, .flag (index < st.buckets.count))
  | .fill head => ({ st with buckets := st.buckets.modifyRow (·.fill head) }, .nothing)
  | .clear => ({ st with buckets := st.buckets.modifyRow (·.fill none) }, .nothing)
  | .grow count lender =>
    let owner := st.world.lender lender
    match HeapRow.alloc slot count owner st.world.heap with
    | (.error e, heap) => ({ st with world := { st.world with heap } }, .error e)
    | (.ok fresh, heap) =>
      let change := st.buckets.grow fresh
      (st.replace change heap owner, .installed count (change.1.map (·.row.count)))
  | .shrink =>
    let change := st.buckets.shrink
    (st.replace change st.world.heap st.owner, .ofOption (.number ·.row.count) change.1)
  | .move => (st, .nothing)
  | .info => (st, .buckets (info st.buckets))
  | .debug pretty => (st, .text ((listing st.buckets).render pretty))

structure Report where
  answer : Answer
  count : Nat
  isGrown : Bool
  heads : List (Option Nat)
  sentinelEmpty : Bool
  events : List String

def report (st : BucketSession) (command : BucketCommand) : BucketSession × Report :=
  let (next, answer) := st.step command
  let b := next.buckets
  (next,
    { answer
      count := b.count
      isGrown := b.isGrown
      heads := b.row.heads
      sentinelEmpty := b.sentinelEmpty
      events := next.world.reportsSince st.world })

def run (st : BucketSession) : List BucketCommand → BucketSession × List Report
  | [] => (st, [])
  | command :: rest =>
    let (next, report) := st.report command
    let (last, reports) := run next rest
    (last, report :: reports)

/-- The reports of what happens when the grown array is returned. -/
def finish (st : BucketSession) : List String :=
  (st.replace st.buckets.shrink st.world.heap st.owner).world.reportsSince st.world

end BucketSession

end ArenaHash
