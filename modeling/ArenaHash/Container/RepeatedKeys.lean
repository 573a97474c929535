import ArenaHash.Container.Keyed

/-!
# Multimaps and key bags

A multimap may have any number of entries for a key. They are next to each other in their chain;
a new one is put right after the first. A key bag is a multimap without values.
-/

namespace ArenaHash

abbrev Multimap (s : Table.Shape) (K V A S : Type) := Keyed s K V A S

namespace Multimap

variable {s : Table.Shape} {K V A S : Type} [BEq K] [Allocator A] (H : Hashing S K)

def insert (m : Multimap s K V A S) (k : K) (v : V) (heap : Heap A) :
    Except MemoryError Unit × Multimap s K V A S × Heap A :=
  let (result, table, heap) := m.table.insertBeside (H.key m.builder k) (k, v) (Keyed.hasKey k)
    (m.hasher H) heap
  (result.map fun _ => (), { m with table }, heap)

/-- The values of a key. -/
def getAll (m : Multimap s K V A S) (k : K) : List V := (m.equalRun H k).map Prod.snd

/-- Equal size, and every value of the first occurs under its key as often as in the second. -/
def beq [BEq V] (a b : Multimap s K V A S) : Bool :=
  a.size == b.size && a.toList.all fun (k, v) =>
    (getAll H a k).countP (· == v) == (getAll H b k).countP (· == v)

def insertion : Keyed.Insertion (K × V) (Multimap s K V A S) A := fun m (k, v) heap =>
  insert H m k v heap

end Multimap

abbrev KeyBag (s : Table.Shape) (K A S : Type) := Multimap s K Unit A S

namespace KeyBag

variable {s : Table.Shape} {K A S : Type} [BEq K] [Allocator A] (H : Hashing S K)

def insert (m : KeyBag s K A S) (k : K) (heap : Heap A) :
    Except MemoryError Unit × KeyBag s K A S × Heap A := Multimap.insert H m k () heap

/-- The first of the stored keys that equal `k`. -/
def get? (m : KeyBag s K A S) (k : K) : Option K := (m.equalRun H k).head?.map Prod.fst

/-- The stored keys that equal `k`. -/
def getAll (m : KeyBag s K A S) (k : K) : List K := (m.equalRun H k).map Prod.fst

/-- Equal size, and every key of the first occurs as often in the second. -/
def beq (a b : KeyBag s K A S) : Bool :=
  a.size == b.size && a.toList.all fun (k, _) => a.count H k == b.count H k

def insertion : Keyed.Insertion K (KeyBag s K A S) A := fun m k heap => insert H m k heap

end KeyBag

end ArenaHash
