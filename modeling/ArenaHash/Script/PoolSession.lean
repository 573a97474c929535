import ArenaHash.Pool.Basic
import ArenaHash.Script.Answer
import ArenaHash.Script.Element
import ArenaHash.Text.Quoted

/-!
# Sessions with a pool

A session numbers the handles of its pool in the order in which they are handed out. The number
of a handle that was returned is not given out again, and a command that names it is refused.
-/

namespace ArenaHash

inductive PoolCommand where
  | alloc (v : Option Nat)
  | free (h : Nat)
  | get (h : Nat)
  | set (h v : Nat)
  | same (h g : Nat)
  | locate (h : Nat)
  /-- Asks what lies at a distance from the start of the arena. -/
  | locateAt (offset : Int)
  | forget
  | setLender (lender : Option Nat)
  /-- Takes over the allocator of a fresh pool. -/
  | copyLender (lender : Option Nat)
  | refuse (lender : Nat) (on : Bool)
  | move
  | info
  | debug (pretty : Bool)

/-- A handle that was not returned yet. -/
structure Held where
  slot : Ref
  /-- Whether an element was written through the handle. -/
  written : Bool

/-- A pool for `count` elements of one kind, held as numbers. -/
abbrev Element.pool (e : Element) (count : Nat) (overflow : Bool) : Pool.Shape :=
  ⟨count, overflow, e.layout⟩

structure PoolSession (e : Element) (count : Nat) (overflow : Bool) where
  world : World
  pool : Pool (e.pool count overflow) Nat Lender
  /-- The handles by number; a returned one has left its place empty. -/
  held : Array (Option Held)

namespace PoolSession

variable {e : Element} {count : Nat} {overflow : Bool}

def new (specs : List LenderSpec) (lender : Option Nat) : PoolSession e count overflow :=
  let world := World.new specs
  ⟨world, .new (world.lender lender), #[]⟩

def arena (_ : PoolSession e count overflow) : Arena := e.arena count

/-- A slot, with its overflow block named by its address. -/
def place (_ : PoolSession e count overflow) (slot : Ref) : Handle UInt64 :=
  slot.map e.blockAddress

/-- The handle of a number, if it was not returned. -/
def handle? (st : PoolSession e count overflow) (h : Nat) : Option Held := st.held[h]?.join

/-- Writes an element through a handle. -/
def write (st : PoolSession e count overflow) (h : Nat) (slot : Ref) (v : Nat) :
    PoolSession e count overflow :=
  { st with
    pool := st.pool.write slot (e.truncate v)
    held := st.held.setIfInBounds h (some ⟨slot, true⟩) }

/-- The session after an operation that may have used the heap. -/
def set (st : PoolSession e count overflow)
    (change : Pool (e.pool count overflow) Nat Lender × Heap Lender) :
    PoolSession e count overflow :=
  { st with pool := change.1, world := { st.world with heap := change.2 } }

def free (st : PoolSession e count overflow) (h : Nat) (slot : Ref) :
    PoolSession e count overflow :=
  let st := st.set (st.pool.free slot st.world.heap)
  { st with held := st.held.setIfInBounds h none }

def alloc (st : PoolSession e count overflow) (v : Option Nat) :
    PoolSession e count overflow × Answer :=
  let (result, change) := st.pool.alloc st.world.heap
  let st := st.set change
  match result with
  | .error e => (st, .error e)
  | .ok slot =>
    let h := st.held.size
    let st := { st with held := st.held.push (some ⟨slot, false⟩) }
    (v.elim st (st.write h slot), .list [.number h, .text slot.toText, .flag slot.isInline])

def listing (st : PoolSession e count overflow) : Listing :=
  .record "FixedNodeAllocator"
    [("capacity", toString count), ("overflow_enabled", toString overflow),
     ("inline_in_use", toString st.pool.inlineLive),
     ("overflow_in_use", toString st.pool.overflowLive),
     ("overflow_allocator", Quoted.encode st.pool.delegate.name)]

def info (st : PoolSession e count overflow) : PoolInfo where
  capacity := count
  canOverflow := overflow
  lender := st.world.info st.pool.delegate
  arenaSlots := st.arena.slots

/-- A command that names a handle. -/
def stepOn (st : PoolSession e count overflow) (h : Nat) (held : Held) :
    PoolCommand → PoolSession e count overflow × Answer
  | .free _ => (st.free h held.slot, .nothing)
  | .get _ =>
    let v := if held.written then st.pool.read held.slot else none
    (st, .ofOption (fun v => .list (.replicate 3 (.word v))) v)
  | .set _ v => (st.write h held.slot v, .nothing)
  | .same _ g => (st, match st.handle? g with
    | some other => .flag (st.place held.slot = st.place other.slot)
    | none => .deadHandle)
  | .locate _ =>
    let address := st.arena.address (st.place held.slot)
    let found := st.arena.locate address
    (st, .list [.text found.toText, .flag (found = st.place held.slot),
      .flag (st.arena.contains address)])
  | _ => (st, .nothing)

def step (st : PoolSession e count overflow) (command : PoolCommand) :
    PoolSession e count overflow × Answer :=
  match command with
  | .alloc v => st.alloc v
  | .free h | .get h | .set h _ | .same h _ | .locate h =>
    match st.handle? h with
    | some held => st.stepOn h held command
    | none => (st, .deadHandle)
  | .locateAt offset =>
    let address := st.arena.start + offset.toInt64.toUInt64
    (st, .list [.text (st.arena.locate address).toText, .flag (st.arena.contains address)])
  | .forget => ({ st with pool := st.pool.forget, held := st.held.map fun _ => none }, .nothing)
  | .setLender lender =>
    let (result, pool) := st.pool.setDelegate (st.world.lender lender)
    ({ st with pool }, .ofUnit .error result)
  | .copyLender lender =>
    let (result, pool) := st.pool.copyDelegate (.new (st.world.lender lender))
    ({ st with pool }, .ofUnit .error result)
  | .refuse lender on => ({ st with world := st.world.refuse lender on }, .nothing)
  | .move => (st, .nothing)
  | .info => (st, .pool st.info)
  | .debug pretty => (st, .text (st.listing.render pretty))

structure Report where
  answer : Answer
  /-- The slots handed out, inline ones, overflow ones, and the inline slots left. -/
  counts : List Nat
  events : List String

def report (st : PoolSession e count overflow) (command : PoolCommand) :
    PoolSession e count overflow × Report :=
  let (next, answer) := st.step command
  let pool := next.pool
  (next,
    { answer
      counts := [pool.live, pool.inlineLive, pool.overflowLive, pool.inlineLeft]
      events := next.world.reportsSince st.world })

def run (st : PoolSession e count overflow) :
    List PoolCommand → PoolSession e count overflow × List Report
  | [] => (st, [])
  | command :: rest =>
    let (next, report) := st.report command
    let (last, reports) := run next rest
    (last, report :: reports)

/-- The reports of what happens when the handles still held are returned in order. -/
def finish (st : PoolSession e count overflow) : List String :=
  let last := (List.range st.held.size).foldl (fun st h =>
    match st.handle? h with
    | some held => st.free h held.slot
    | none => st) st
  last.world.reportsSince st.world

end PoolSession

end ArenaHash
