import ArenaHash.Growth.Primes
import ArenaHash.Number.Binary32

/-!
# When a table grows

A growth plan knows the largest acceptable load factor and the number of elements that the
present bucket count carries under it, its limit. An insertion beyond the limit asks for at least
twice as many buckets. Load factors are single-precision numbers and every product and quotient
is rounded as such.
-/

namespace ArenaHash

structure Growth where
  maxLoad : Binary32
  limit : Nat
  deriving DecidableEq

namespace Growth

/-- The load factor of a table that may grow. -/
def defaultLoad : Binary32 := .ofNat 1

/-- The load factor of a table that may not grow, out of reach of its elements. -/
def fixedLoad : Binary32 := .ofNat 10000

/-- The least factor by which the bucket count grows. -/
def leastFactor : Binary32 := .ofNat 2

/-- How many elements `count` buckets carry at load factor `maxLoad`. -/
def limitFor (maxLoad : Binary32) (count : Nat) : Nat :=
  (Binary32.ofNat count * maxLoad).truncate

/-- The same load factor for another bucket count. -/
def retarget (g : Growth) (count : Nat) : Growth :=
  { g with limit := limitFor g.maxLoad count }

/-- A plan for `count` buckets. A load factor that is not finite and positive gives way to the
default. -/
def new (maxLoad : Binary32) (count : Nat) : Growth :=
  let load := if maxLoad.isPositive then maxLoad else defaultLoad
  { maxLoad := load, limit := limitFor load count }

/-- The plan of a table that may not grow. -/
def fixed (count : Nat) : Growth := new fixedLoad count

/-- Replaces the load factor, unless the new one is not finite and positive. -/
def setMaxLoad? (g : Growth) (maxLoad : Binary32) (count : Nat) : Option Growth :=
  if maxLoad.isPositive then some (retarget { g with maxLoad } count) else none

/-- The bucket count to grow to, if `wanted` elements are too many for `count` buckets. -/
def enlarged? (g : Growth) (count wanted : Nat) : Option Nat :=
  let least := Binary32.ofNat wanted / g.maxLoad
  if Binary32.lt (.ofNat count) least then
    let doubled := leastFactor * Binary32.ofNat count
    let grown := primeAtLeast (min ((least.max doubled).truncate + 1) maxWord)
    if count < grown then some grown else none
  else none

/-- Asks whether `additional` elements more than `elements` need more buckets, and how many.
The limit is brought up to date unless the elements are within it. -/
def advise (g : Growth) (count elements additional : Nat) : Option Nat × Growth :=
  let wanted := elements + additional
  if wanted ≤ g.limit then (none, g)
  else
    let grown := g.enlarged? count wanted
    (grown, g.retarget (grown.getD count))

theorem maxLoad_retarget (g : Growth) (n : Nat) : (g.retarget n).maxLoad = g.maxLoad := by
  unfold retarget
  rfl

theorem retarget_retarget (g : Growth) (m n : Nat) :
    (g.retarget m).retarget n = g.retarget n := by
  unfold retarget
  rfl

end Growth

end ArenaHash
