import ArenaHash.Container.Abort
import ArenaHash.Container.Keyed

/-!
# Maps and key sets

A map has at most one entry for a key. Inserting under a present key changes the entry in place,
without asking for memory: `insert` its value, `replace` the whole entry, `insertIfNew` nothing
at all. A key set is a map without values.
-/

namespace ArenaHash

abbrev Map (s : Table.Shape) (K V A S : Type) := Keyed s K V A S

namespace Map

variable {s : Table.Shape} {K V A S : Type} [BEq K] [Allocator A] (H : Hashing S K)

/-- Adds an entry whose key is absent. -/
def add (m : Map s K V A S) (k : K) (v : V) (heap : Heap A) :
    Except MemoryError Ref × Map s K V A S × Heap A :=
  let (result, table, heap) := m.table.insertFront (H.key m.builder k) (k, v) (m.hasher H) heap
  (result, { m with table }, heap)

/-- Sets the value of a key; answers the value it replaced. A present key stays as stored. -/
def insert (m : Map s K V A S) (k : K) (v : V) (heap : Heap A) :
    Except MemoryError (Option V) × Map s K V A S × Heap A :=
  match m.locate? H k with
  | some (h, stored, old) =>
    (.ok (some old), { m with table := m.table.setEntry h (stored, v) }, heap)
  | none =>
    let (result, m, heap) := add H m k v heap
    (result.map fun _ => none, m, heap)

/-- Sets key and value; answers the entry it replaced. -/
def replace (m : Map s K V A S) (k : K) (v : V) (heap : Heap A) :
    Except MemoryError (Option (K × V)) × Map s K V A S × Heap A :=
  match m.locate? H k with
  | some (h, old) =>
    (.ok (some old), { m with table := m.table.setEntry h (k, v) }, heap)
  | none =>
    let (result, m, heap) := add H m k v heap
    (result.map fun _ => none, m, heap)

/-- Adds an entry if the key is absent. Answers where the entry of the key is and whether it is
new. -/
def insertIfNew (m : Map s K V A S) (k : K) (v : V) (heap : Heap A) :
    Except MemoryError (Ref × Bool) × Map s K V A S × Heap A :=
  match m.find? H k with
  | some h => (.ok (h, false), m, heap)
  | none =>
    let (result, m, heap) := add H m k v heap
    (result.map (·, true), m, heap)

/-- One if the key is present and zero otherwise. -/
def countKey (m : Map s K V A S) (k : K) : Nat := (m.contains H k).toNat

/-- The value of a key that has to be there. -/
def demand (m : Map s K V A S) (k : K) : Except Abort V :=
  match m.get? H k with
  | some v => .ok v
  | none => .error .keyNotFound

/-- Equal size, and every entry of the first has its value in the second. -/
def beq [BEq V] (a b : Map s K V A S) : Bool :=
  a.size == b.size && a.toList.all fun (k, v) => (b.get? H k).any (v == ·)

/-- Insertion with the answer left out. -/
def insertion : Keyed.Insertion (K × V) (Map s K V A S) A := fun m (k, v) heap =>
  let (result, m, heap) := insert H m k v heap
  (result.map fun _ => (), m, heap)

end Map

abbrev KeySet (s : Table.Shape) (K A S : Type) := Map s K Unit A S

namespace KeySet

variable {s : Table.Shape} {K A S : Type} [BEq K] [Allocator A] (H : Hashing S K)

/-- Adds a key; answers whether it was absent. A present key stays as stored. -/
def insert (m : KeySet s K A S) (k : K) (heap : Heap A) :
    Except MemoryError Bool × KeySet s K A S × Heap A :=
  let (result, m, heap) := Map.insertIfNew H m k () heap
  (result.map Prod.snd, m, heap)

/-- Adds a key in place of an equal one; answers the one before. -/
def replace (m : KeySet s K A S) (k : K) (heap : Heap A) :
    Except MemoryError (Option K) × KeySet s K A S × Heap A :=
  let (result, m, heap) := Map.replace H m k () heap
  (result.map (·.map Prod.fst), m, heap)

/-- The stored key that equals `k`. -/
def get? (m : KeySet s K A S) (k : K) : Option K := (m.getPair? H k).map Prod.fst

/-- Equal size, and every key of the first is in the second. -/
def beq (a b : KeySet s K A S) : Bool :=
  a.size == b.size && a.toList.all fun (k, _) => b.contains H k

/-- Insertion with the answer left out. -/
def insertion : Keyed.Insertion K (KeySet s K A S) A := fun m k heap =>
  let (result, m, heap) := insert H m k heap
  (result.map fun _ => (), m, heap)

end KeySet

end ArenaHash
