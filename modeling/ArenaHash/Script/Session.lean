import ArenaHash.Container.Shelf
import ArenaHash.Script.Family

/-!
# Sessions with containers

A session has four registers for containers of one type. A step changes registers and answers;
its report shows what the registers hold afterwards and what happened at the counting allocators.
-/

namespace ArenaHash

structure Session (s : Table.Shape) (V : Type) where
  family : Family s V
  world : World
  registers : Shelf s Key V Lender Builder

namespace Session

variable {s : Table.Shape} {V : Type}

def hashing (st : Session s V) : Hashing Builder Key := Builder.hashing st.world.salt

def heap (st : Session s V) : Heap Lender := st.world.heap

def get (st : Session s V) (r : Nat) : Option (Scripted s V) := st.registers.get r

/-- The session after an operation on its registers. -/
def set (st : Session s V) (change : Shelf s Key V Lender Builder × Heap Lender) : Session s V :=
  { st with registers := change.1, world := { st.world with heap := change.2 } }

def put (st : Session s V) (r : Nat) (c : Option (Scripted s V)) : Session s V :=
  st.set (st.registers.put r c st.heap)

/-- Puts the container of a register back after a change. -/
def update (st : Session s V) (r : Nat) (change : Scripted s V × Heap Lender) : Session s V :=
  st.set (st.registers.set r (some change.1), change.2)

/-- A new container; a builder or allocator that is not given is the default one. -/
def build (st : Session s V) (builder : Option Builder) (lender : Option Nat) : Scripted s V :=
  .new (builder.getD .default) (st.world.lender lender)

/-- Registers 1 to 3 are empty at the start. -/
def new (family : Family s V) (specs : List LenderSpec) (builder : Option Builder)
    (lender : Option Nat) : Session s V :=
  let st : Session s V := ⟨family, .new specs, .empty 4⟩
  st.put 0 (some (st.build builder lender))

/-! ## Steps -/

/-- What a failed operation comes to: an error, or an abort if there is no room for one. -/
def failure (orAbort : Bool) (abort : MemoryError → Abort) (e : MemoryError) : Answer :=
  if orAbort then .abort (abort e) else .error e

/-- Puts what was built into a register, or answers why nothing was. -/
def putResult (st : Session s V) (r : Nat) (failed : MemoryError → Answer)
    (result : Except MemoryError (Scripted s V) × Heap Lender) : Session s V × Answer :=
  let (result, change) := st.registers.putResult r result
  (st.set change, .ofUnit failed result)

/-- A command to the container `c` in register `r` alone. -/
def stepOn (st : Session s V) (r : Nat) (c : Scripted s V) : Command V → Session s V × Answer
  | .intoIter calls =>
    let (answer, c, _, heap) := st.family.popWalker.walk calls (c, 0, st.heap)
    (st.set (st.registers.set r none, c.dispose heap), answer)
  | .iter facet calls => (st, (st.family.iterWalker c facet).forkedWalk calls c.cursor)
  | .iterMut facet calls change =>
    let (answer, c, _) := (st.family.changeWalker facet).walk calls (c, c.cursor, change)
    (st.update r (c, st.heap), answer)
  | .run facet k calls =>
    (st, (st.family.runWalker c facet).forkedWalk calls (c.runCursor st.hashing k))
  | .info => (st, .container (Family.info st.world c))
  | .chainLength index => (st, .number (c.table.chainLength index))
  | .chainLengths =>
    (st, .list ((Family.chainLengths c).map fun (i, n) => .list [.number i, .number n]))
  | .bucketOf k => (st, .number (c.bucketOf st.hashing k))
  | .count k => (st, .number (st.family.count st.hashing c k))
  | .check => (st, .flag (c.check st.hashing))
  | .setMaxLoad x =>
    let c := c.setMaxLoad x
    (st.update r (c, st.heap), .float c.table.growth.maxLoad)
  | .setLender lender =>
    let (result, c) := c.setDelegate (st.world.lender lender)
    (st.update r (c, st.heap), .ofUnit .error result)
  | .clear => (st.update r (c.clear st.heap), .nothing)
  | .renew => (st.update r (c.renew st.heap), .nothing)
  | .abandon => (st.update r (c.abandon st.heap), .nothing)
  | .debug pretty => (st, .text ((st.family.listing c.toList).render pretty))
  | .insertMany items orAbort =>
    let (result, change) := Keyed.insertMany (st.family.insertion st.hashing) c items st.heap
    let failed := failure orAbort (.insertFailed st.family.kind)
    (st.update r change, .ofUnit failed result)
  | .insert k v =>
    let (answer, change) := st.family.insert st.hashing c k v st.heap
    (st.update r change, answer)
  | .replace k v =>
    let (result, change) := Map.replace st.hashing c k v st.heap
    (st.update r change, .ofExcept (.ofOption Family.showKey) result)
  | .insertIfNew k v add =>
    let (result, c, heap) := Map.insertIfNew st.hashing c k v st.heap
    match result with
    | .error e => (st.update r (c, heap), .error e)
    | .ok (h, new) =>
      let (found, c) := c.modifyAt h (st.family.change { add })
      (st.update r (c, heap), .list [.ofOption st.family.showValue found, .flag new])
  | .get k => (st, st.family.get st.hashing c k)
  | .getEntry k => (st, .ofOption st.family.showEntry (c.getPair? st.hashing k))
  | .modify k change =>
    let (found, c) := c.modify st.hashing k (st.family.change change)
    (st.update r (c, st.heap), .ofOption st.family.showValue found)
  | .demand k => (st, match Map.demand st.hashing c k with
    | .ok v => st.family.showValue v
    | .error a => .abort a)
  | .contains k => (st, .flag (c.contains st.hashing k))
  | .erase k =>
    let (entry, change) := c.erase st.hashing k st.heap
    (st.update r change, st.family.erased entry)
  | .eraseEntry k =>
    let (entry, change) := c.erase st.hashing k st.heap
    (st.update r change, .ofOption st.family.showEntry entry)
  | .eraseAll k =>
    let (erased, change) := c.eraseAll st.hashing k st.heap
    (st.update r change, .number erased)
  | .filter sieve change =>
    let (answer, changed) := st.family.filter c sieve change st.heap
    (st.update r changed, answer)
  | _ => (st, .nothing)

/-- A command to the containers `c` in register `r` and `d` in register `o`. -/
def stepOnTwo (st : Session s V) (r o : Nat) (c d : Scripted s V) :
    Command V → Session s V × Answer
  | .copyFrom => st.putResult r (failure true (.copyFailed st.family.kind)) (d.copy st.heap)
  | .swap => (st.set (st.registers.swap r o, st.heap), .nothing)
  | .eq =>
    let forward := Answer.flag (st.family.beq st.hashing c d)
    let backward := Answer.flag (st.family.beq st.hashing d c)
    (st, if r = o then forward else .list [forward, backward])
  | .ownArena => (st, .flag (r != o))
  | _ => (st, .nothing)

def step (st : Session s V) (step : Step V) : Session s V × Answer :=
  let r := step.register
  let o := step.other.getD r
  match step.command with
  | .refuse lender on => ({ st with world := st.world.refuse lender on }, .nothing)
  | .salt x => ({ st with world := { st.world with salt := x } }, .nothing)
  | .new builder lender => (st.put r (some (st.build builder lender)), .nothing)
  | .drop => (st.put r none, .nothing)
  | .ofList items orAbort =>
    st.putResult r (failure orAbort (.insertFailed st.family.kind))
      (Keyed.ofList (st.family.insertion st.hashing) .default .default items st.heap)
  | command =>
    match st.get r, st.get o, command with
    | some c, _, .copy orAbort =>
      st.putResult o (failure orAbort (.copyFailed st.family.kind)) (c.copy st.heap)
    | some c, some d, .copyFrom | some c, some d, .swap | some c, some d, .eq
    | some c, some d, .ownArena => st.stepOnTwo r o c d command
    | _, none, .copyFrom | _, none, .swap | _, none, .eq | _, none, .ownArena =>
      (st, .emptyRegister)
    | some c, _, command => st.stepOn r c command
    | none, _, _ => (st, .emptyRegister)

/-! ## Reports -/

/-- What is reported of a container. -/
structure Snapshot where
  size : Nat
  bucketCount : Nat
  usesOverflow : Bool
  items : List Answer

structure Report where
  answer : Answer
  state : Option Snapshot
  /-- The other register's state, if the step names one. -/
  other : Option (Option Snapshot)
  events : List String

def snapshot (st : Session s V) (r : Nat) : Option Snapshot :=
  (st.get r).map fun c =>
    ⟨c.size, c.table.bucketCount, c.table.usesOverflow, c.toList.map st.family.showEntry⟩

def report (st : Session s V) (action : Step V) : Session s V × Report :=
  let (next, answer) := st.step action
  let other := action.other.filter (· != action.register)
  (next,
    { answer
      state := next.snapshot action.register
      other := other.map next.snapshot
      events := next.world.reportsSince st.world })

def run (st : Session s V) : List (Step V) → Session s V × List Report
  | [] => (st, [])
  | action :: rest =>
    let (next, report) := st.report action
    let (last, reports) := run next rest
    (last, report :: reports)

/-- The reports of what happens when the registers are disposed of in order. -/
def finish (st : Session s V) : List String :=
  (st.set (st.registers.clear st.heap)).world.reportsSince st.world

end Session

end ArenaHash
