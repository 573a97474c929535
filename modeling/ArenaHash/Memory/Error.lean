/-!
# Memory errors

Memory runs out in two ways: the inline slots are used up and overflow is switched off, or the
overflow allocator refuses a request. An overflow allocator that still has blocks outstanding
cannot be replaced by a different one.
-/

namespace ArenaHash

inductive MemoryError where
  /-- Every one of the `capacity` inline slots is in use and overflow is switched off. -/
  | full (capacity : Nat)
  /-- The named allocator did not provide `size` bytes at alignment `align`. -/
  | refused (allocator : String) (size align : Nat)
  /-- The named allocator would be replaced while `outstanding` of its blocks are live. -/
  | busy (allocator : String) (outstanding : Nat)
  deriving DecidableEq

def MemoryError.message : MemoryError → String
  | full capacity =>
    s!"Capacity exceeded: all {capacity} inline slots are in use and overflow is disabled"
  | refused allocator size align =>
    s!"Out of memory: overflow allocator '{allocator}' failed to allocate {size} bytes (align {align})"
  | busy allocator outstanding =>
    s!"Allocator in use: {outstanding} blocks from overflow allocator '{allocator}' are still live"

end ArenaHash
