import ArenaHash.Table.Copy
import ArenaHash.Table.Cursor

/-!
# Keyed containers

A keyed container is a table of pairs of a key and a value together with a hash builder. Maps
and multimaps are such containers and differ in how they insert; here is what they share.

How a builder hashes is an argument of the operations that need it, so that it may change from
one call to the next.
-/

namespace ArenaHash

/-- How builders hash keys at present: a key that an operation is called with, and a key in a
slot. A faithful hash is the same for both and does not depend on the slot. -/
structure Hashing (S K : Type) where
  key : S → K → UInt64
  stored : S → Ref → K → UInt64

/-- The faithful hash given by a function. -/
def Hashing.ofFun {S K : Type} (f : S → K → UInt64) : Hashing S K := ⟨f, fun b _ => f b⟩

structure Keyed (s : Table.Shape) (K V A S : Type) where
  table : Table s (K × V) A
  builder : S

namespace Keyed

variable {s : Table.Shape} {K V A S : Type}

def new (builder : S) (delegate : A) : Keyed s K V A S := ⟨.new delegate, builder⟩

def size (c : Keyed s K V A S) : Nat := c.table.size

def isEmpty (c : Keyed s K V A S) : Bool := c.size == 0

def toList (c : Keyed s K V A S) : List (K × V) := c.table.toList

def delegate (c : Keyed s K V A S) : A := c.table.delegate

/-- Changes the value in a slot; answers the value before. -/
def modifyAt (c : Keyed s K V A S) (h : Ref) (f : V → V) : Option V × Keyed s K V A S :=
  match c.table.entryAt? h with
  | some (k, v) => (some v, { c with table := c.table.setEntry h (k, f v) })
  | none => (none, c)

/-! ## Walking -/

/-- A walk over all entries. -/
def cursor (c : Keyed s K V A S) : Cursor := c.table.cursor

/-- The next entry of a walk. -/
def next? (c : Keyed s K V A S) (cursor : Cursor) : Option ((K × V) × Cursor) :=
  (cursor.step? c.table).bind fun (h, cursor) => (c.table.entryAt? h).map (·, cursor)

/-- The next entry of a walk, with its value changed. -/
def changeNext? (c : Keyed s K V A S) (cursor : Cursor) (f : V → V) :
    Option ((K × V) × Keyed s K V A S × Cursor) :=
  (cursor.step? c.table).bind fun (h, cursor) => (c.table.entryAt? h).map fun (k, v) =>
    ((k, f v), { c with table := c.table.setEntry h (k, f v) }, cursor)

/-- The next entry of a walk along a stretch of equal keys. -/
def nextInRun? (c : Keyed s K V A S) (cursor : RunCursor) : Option ((K × V) × RunCursor) :=
  (cursor.step? c.table).bind fun (h, cursor) => (c.table.entryAt? h).map (·, cursor)

/-! ## Looking up -/

section Lookup

variable [BEq K] (H : Hashing S K) (c : Keyed s K V A S)

/-- The test for entries with a key. -/
def hasKey (k : K) : K × V → Bool := fun entry => entry.1 == k

/-- The hash of stored entries. -/
def hasher : Ref → K × V → UInt64 := fun h entry => H.stored c.builder h entry.1

def find? (k : K) : Option Ref := c.table.find? (H.key c.builder k) (hasKey k)

/-- The first entry with a key, and where it is. -/
def locate? (k : K) : Option (Ref × K × V) :=
  (c.find? H k).bind fun h => (c.table.entryAt? h).map (h, ·)

/-- The first entry with a key. -/
def getPair? (k : K) : Option (K × V) := (c.locate? H k).map Prod.snd

/-- The value of the first entry with a key. -/
def get? (k : K) : Option V := (c.getPair? H k).map Prod.snd

def contains (k : K) : Bool := (c.find? H k).isSome

/-- The number of entries with a key in the key's chain. -/
def count (k : K) : Nat := c.table.count (H.key c.builder k) (hasKey k)

/-- The first entry with a key and those with the key right after it. -/
def equalRun (k : K) : List (K × V) :=
  (c.table.equalRun (H.key c.builder k) (hasKey k)).filterMap c.table.entryAt?

def runCursor (k : K) : RunCursor := c.table.runCursor (H.key c.builder k) (hasKey k)

/-- The bucket of a key at the present bucket count. -/
def bucketOf (k : K) : Nat := c.table.bucketOf (H.key c.builder k)

def check : Bool := c.table.check (c.hasher H)

/-- Changes the value of the first entry with a key; answers the value before. -/
def modify (k : K) (f : V → V) : Option V × Keyed s K V A S :=
  match c.find? H k with
  | some h => c.modifyAt h f
  | none => (none, c)

end Lookup

/-! ## Removing -/

section Removal

variable [Allocator A]

/-- Removes the first entry with a key. -/
def erase [BEq K] (H : Hashing S K) (c : Keyed s K V A S) (k : K) (heap : Heap A) :
    Option (K × V) × Keyed s K V A S × Heap A :=
  let (entry, table, heap) := c.table.erase (H.key c.builder k) (hasKey k) heap
  (entry, { c with table }, heap)

/-- Removes every entry with a key and counts them. -/
def eraseAll [BEq K] (H : Hashing S K) (c : Keyed s K V A S) (k : K) (heap : Heap A) :
    Nat × Keyed s K V A S × Heap A :=
  let (erased, table, heap) := c.table.eraseAll (H.key c.builder k) (hasKey k) heap
  (erased, { c with table }, heap)

/-- Keeps the entries that `keep` accepts, with the values it leaves. -/
def filter {σ : Type} (c : Keyed s K V A S) (keep : σ → K → V → Bool × V × σ) (state : σ)
    (heap : Heap A) : σ × Keyed s K V A S × Heap A :=
  let keepEntry := fun state (entry : K × V) =>
    let (kept, v, state) := keep state entry.1 entry.2
    (kept, (entry.1, v), state)
  let (state, table, heap) := c.table.filter keepEntry state heap
  (state, { c with table }, heap)

/-- Takes out the first entry at or after a position. -/
def pop (c : Keyed s K V A S) (position : Nat) (heap : Heap A) :
    Option (K × V) × Nat × Keyed s K V A S × Heap A :=
  let (entry, position, table, heap) := c.table.pop position heap
  (entry, position, { c with table }, heap)

def clear (c : Keyed s K V A S) (heap : Heap A) : Keyed s K V A S × Heap A :=
  let (table, heap) := c.table.clear heap
  ({ c with table }, heap)

def renew (c : Keyed s K V A S) (heap : Heap A) : Keyed s K V A S × Heap A :=
  let (table, heap) := c.table.renew heap
  ({ c with table }, heap)

def abandon (c : Keyed s K V A S) (heap : Heap A) : Keyed s K V A S × Heap A :=
  let (table, heap) := c.table.abandon heap
  ({ c with table }, heap)

/-- The heap after the container is gone. -/
def dispose (c : Keyed s K V A S) (heap : Heap A) : Heap A := c.table.dispose heap

def copy (c : Keyed s K V A S) (heap : Heap A) :
    Except MemoryError (Keyed s K V A S) × Heap A :=
  match c.table.copy heap with
  | (.ok table, heap) => (.ok { c with table }, heap)
  | (.error e, heap) => (.error e, heap)

end Removal

/-! ## Settings -/

def setMaxLoad (c : Keyed s K V A S) (maxLoad : Binary32) : Keyed s K V A S :=
  { c with table := c.table.setMaxLoad maxLoad }

def setDelegate [Allocator A] (c : Keyed s K V A S) (delegate : A) :
    Except MemoryError Unit × Keyed s K V A S :=
  let (result, table) := c.table.setDelegate delegate
  (result, { c with table })

/-! ## Inserting many

A way of inserting one item gives a way of inserting a list of them, up to the first error; the
items before it stay. -/

/-- A way of inserting one item into a container. -/
abbrev Insertion (ι C A : Type) := C → ι → Heap A → Except MemoryError Unit × C × Heap A

def insertMany {ι C A : Type} (insert : Insertion ι C A) :
    C → List ι → Heap A → Except MemoryError Unit × C × Heap A
  | c, [], heap => (.ok (), c, heap)
  | c, x :: xs, heap =>
    match insert c x heap with
    | (.ok (), c, heap) => insertMany insert c xs heap
    | (.error e, c, heap) => (.error e, c, heap)

/-- Builds a container from a list of items. One that cannot hold them all is disposed of. -/
def ofList [Allocator A] {ι : Type} (insert : Insertion ι (Keyed s K V A S) A) (builder : S)
    (delegate : A) (items : List ι) (heap : Heap A) :
    Except MemoryError (Keyed s K V A S) × Heap A :=
  match insertMany insert (new builder delegate) items heap with
  | (.ok (), c, heap) => (.ok c, heap)
  | (.error e, c, heap) => (.error e, c.dispose heap)

end Keyed

end ArenaHash
