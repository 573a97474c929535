import ArenaHash.Container.RepeatedKeys
import ArenaHash.Container.UniqueKeys

/-!
# Calls on containers

The operations of a container as data, each with the type of its answer, and how to perform them.
`Keyed.Call` are the calls that all containers have; maps and multimaps add their ways of
inserting and counting. A call that visits entries takes what the visitor does as a value: a
filter with a state of its own, or a list with one change for each entry visited.

- A walk in progress is a call: `change` gives up after its last change.
- An error answered by an insertion is an answer like any other.
-/

namespace ArenaHash

namespace Keyed

variable {s : Table.Shape} {K V A S : Type}

/-- What a walk comes to in at most `limit` steps. -/
def walk (c : Keyed s K V A S) : (limit : Nat) → Cursor → List (K × V)
  | 0, _ => []
  | limit + 1, cursor =>
    match c.next? cursor with
    | some (entry, cursor) => entry :: c.walk limit cursor
    | none => []

/-- What an iterator yields. -/
def walked (c : Keyed s K V A S) : List (K × V) := c.walk c.size c.cursor

/-- What a walk along a stretch of equal keys comes to in at most `limit` steps. -/
def walkRun (c : Keyed s K V A S) : (limit : Nat) → RunCursor → List (K × V)
  | 0, _ => []
  | limit + 1, cursor =>
    match c.nextInRun? cursor with
    | some (entry, cursor) => entry :: c.walkRun limit cursor
    | none => []

/-- Makes one change at each step of a walk; answers the entries as it leaves them. -/
def changeAlong : List (V → V) → Keyed s K V A S → Cursor → List (K × V) × Keyed s K V A S
  | [], c, _ => ([], c)
  | f :: fs, c, cursor =>
    match c.changeNext? cursor f with
    | some (entry, c, cursor) =>
      let (entries, c) := changeAlong fs c cursor
      (entry :: entries, c)
    | none => ([], c)

inductive Call (K V : Type) : Type → Type 1 where
  | get (k : K) : Call K V (Option V)
  | getEntry (k : K) : Call K V (Option (K × V))
  | contains (k : K) : Call K V Bool
  | modify (k : K) (f : V → V) : Call K V (Option V)
  | erase (k : K) : Call K V (Option (K × V))
  | filter {σ : Type} (keep : σ → K → V → Bool × V × σ) (state : σ) : Call K V σ
  | change (changes : List (V → V)) : Call K V (List (K × V))
  | clear : Call K V Unit
  | renew : Call K V Unit
  | abandon : Call K V Unit
  | setMaxLoad (maxLoad : Binary32) : Call K V Unit

variable [BEq K] [Allocator A]

def perform (H : Hashing S K) (c : Keyed s K V A S) (heap : Heap A) {ρ : Type} :
    Call K V ρ → ρ × Keyed s K V A S × Heap A
  | .get k => (c.get? H k, c, heap)
  | .getEntry k => (c.getPair? H k, c, heap)
  | .contains k => (c.contains H k, c, heap)
  | .modify k f =>
    let (old, c) := c.modify H k f
    (old, c, heap)
  | .erase k => c.erase H k heap
  | .filter keep state => c.filter keep state heap
  | .change changes =>
    let (entries, c) := changeAlong changes c c.cursor
    (entries, c, heap)
  | .clear => ((), c.clear heap)
  | .renew => ((), c.renew heap)
  | .abandon => ((), c.abandon heap)
  | .setMaxLoad maxLoad => ((), c.setMaxLoad maxLoad, heap)

end Keyed

namespace Map

inductive Call (K V : Type) : Type → Type 1 where
  | insert (k : K) (v : V) : Call K V (Except MemoryError (Option V))
  /-- Answers the value and whether it is new, and changes it afterwards. -/
  | insertIfNew (k : K) (v : V) (f : V → V) : Call K V (Except MemoryError (Option V × Bool))
  | replace (k : K) (v : V) : Call K V (Except MemoryError (Option (K × V)))
  | count (k : K) : Call K V Nat
  | common {ρ : Type} (call : Keyed.Call K V ρ) : Call K V ρ

variable {s : Table.Shape} {K V A S : Type} [BEq K] [Allocator A]

def perform (H : Hashing S K) (m : Map s K V A S) (heap : Heap A) {ρ : Type} :
    Call K V ρ → ρ × Map s K V A S × Heap A
  | .insert k v => insert H m k v heap
  | .insertIfNew k v f =>
    match insertIfNew H m k v heap with
    | (.ok (h, isNew), m, heap) =>
      let (value, m) := m.modifyAt h f
      (.ok (value, isNew), m, heap)
    | (.error e, m, heap) => (.error e, m, heap)
  | .replace k v => replace H m k v heap
  | .count k => (countKey H m k, m, heap)
  | .common call => Keyed.perform H m heap call

end Map

namespace Multimap

inductive Call (K V : Type) : Type → Type 1 where
  | insert (k : K) (v : V) : Call K V (Except MemoryError Unit)
  | count (k : K) : Call K V Nat
  | equalRun (k : K) : Call K V (List (K × V))
  | eraseAll (k : K) : Call K V Nat
  | common {ρ : Type} (call : Keyed.Call K V ρ) : Call K V ρ

variable {s : Table.Shape} {K V A S : Type} [BEq K] [Allocator A]

def perform (H : Hashing S K) (m : Multimap s K V A S) (heap : Heap A) {ρ : Type} :
    Call K V ρ → ρ × Multimap s K V A S × Heap A
  | .insert k v => insert H m k v heap
  | .count k => (m.count H k, m, heap)
  | .equalRun k => (m.equalRun H k, m, heap)
  | .eraseAll k => m.eraseAll H k heap
  | .common call => Keyed.perform H m heap call

end Multimap

end ArenaHash
