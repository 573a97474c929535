import ArenaHash.Memory.Layout

/-!
# Stored hashes

A table either keeps the hash of each key in its node or computes it again when it is needed.
-/

namespace ArenaHash

inductive Caching where
  | cached
  | uncached
  deriving DecidableEq

namespace Caching

/-- What a node keeps of its hash. -/
def keep : Caching → UInt64 → Option UInt64
  | cached, hash => some hash
  | uncached, _ => none

/-- The bytes a node spends on it. -/
def bytes : Caching → Nat
  | cached => 8
  | uncached => 0

/-- The layout of a node that takes so many bytes without its hash, if it is aligned like words. -/
def wordLayout (bytes : Nat) (c : Caching) : Layout := ⟨bytes + c.bytes, 8⟩

end Caching

end ArenaHash
