import ArenaHash.Container.Keyed

/-!
# Shelves

A shelf has numbered places for containers of one type that share a heap. What a place held
before is disposed of after what replaces it has been built.
-/

namespace ArenaHash

structure Shelf (s : Table.Shape) (K V A S : Type) where
  places : List (Option (Keyed s K V A S))

namespace Shelf

variable {s : Table.Shape} {K V A S : Type}

def empty (places : Nat) : Shelf s K V A S := ⟨.replicate places none⟩

def get (shelf : Shelf s K V A S) (r : Nat) : Option (Keyed s K V A S) := shelf.places[r]?.join

/-- Replaces what a place holds without disposing of it. -/
def set (shelf : Shelf s K V A S) (r : Nat) (c : Option (Keyed s K V A S)) : Shelf s K V A S :=
  ⟨shelf.places.set r c⟩

def swap (shelf : Shelf s K V A S) (r o : Nat) : Shelf s K V A S :=
  (shelf.set r (shelf.get o)).set o (shelf.get r)

variable [Allocator A]

/-- Replaces what a place holds and disposes of it. -/
def put (shelf : Shelf s K V A S) (r : Nat) (c : Option (Keyed s K V A S)) (heap : Heap A) :
    Shelf s K V A S × Heap A :=
  (shelf.set r c, match shelf.get r with
    | some old => old.dispose heap
    | none => heap)

/-- Puts what was built, if it was built. -/
def putResult (shelf : Shelf s K V A S) (r : Nat) :
    Except MemoryError (Keyed s K V A S) × Heap A →
      Except MemoryError Unit × Shelf s K V A S × Heap A
  | (.ok c, heap) => (.ok (), shelf.put r (some c) heap)
  | (.error e, heap) => (.error e, shelf, heap)

/-- Disposes of everything, place by place. -/
def clear (shelf : Shelf s K V A S) (heap : Heap A) : Shelf s K V A S × Heap A :=
  (List.range shelf.places.length).foldl (fun (shelf, heap) r => shelf.put r none heap)
    (shelf, heap)

end Shelf

end ArenaHash
