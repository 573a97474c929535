import ArenaHash.Container.Abort
import ArenaHash.Container.Value
import ArenaHash.Script.Key
import ArenaHash.Script.World

/-!
# Answers of scripts

A command is answered with plain data, an error, an abort, a walk, or a summary of what a
container, pool or bucket array is like.
-/

namespace ArenaHash

/-- An allocator by name and by the places of the list it is interchangeable with. -/
structure LenderInfo where
  name : String
  indices : List Nat

def World.info (w : World) (lender : Lender) : LenderInfo := ⟨lender.name, w.indicesOf lender⟩

structure ContainerInfo where
  size : Nat
  isEmpty : Bool
  capacity : Nat
  canOverflow : Bool
  usesOverflow : Bool
  bucketCount : Nat
  loadFactor : Binary32
  maxLoad : Binary32
  builder : Builder
  lender : LenderInfo

structure PoolInfo where
  capacity : Nat
  canOverflow : Bool
  lender : LenderInfo
  arenaSlots : Nat

structure BucketInfo where
  sentinelEmpty : Bool
  slots : List (Option Nat)
  isInline : Bool

inductive Answer where
  | nothing
  | flag (b : Bool)
  | number (n : Nat)
  /-- A number that is written as a text. -/
  | word (n : Nat)
  | float (x : Binary32)
  | text (t : String)
  | key (k : Key)
  | value (v : Value)
  | list (members : List Answer)
  | error (e : MemoryError)
  | abort (a : Abort)
  | emptyRegister
  | deadHandle
  /-- The items of a walk with the number of items before each, and how many were left. -/
  | walk (seen : List (Nat × Answer)) (left : Nat)
  /-- A walk, then what a copy of the iterator and the iterator itself went on to give. -/
  | forkedWalk (seen : List (Nat × Answer)) (left : Nat) (copy rest : List Answer)
  | container (info : ContainerInfo)
  | pool (info : PoolInfo)
  | buckets (info : BucketInfo)
  | installed (count : Nat) (replaced : Option Nat)

namespace Answer

def ofOption {α : Type} (f : α → Answer) : Option α → Answer
  | some x => f x
  | none => nothing

def ofExcept {α : Type} (f : α → Answer) : Except MemoryError α → Answer
  | .ok x => f x
  | .error e => error e

/-- Nothing, or what an error comes to. -/
def ofUnit (failed : MemoryError → Answer) : Except MemoryError Unit → Answer
  | .ok () => nothing
  | .error e => failed e

end Answer

end ArenaHash
