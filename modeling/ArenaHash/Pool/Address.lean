import ArenaHash.Pool.Handle

/-!
# Addresses of inline slots

An arena is a run of equally large slots that starts at some machine address. Which slot an
address belongs to is decided by its distance from the start alone; an address that starts no
slot is taken for that of an overflow block.
-/

namespace ArenaHash

/-- The width of a free-list link; a slot is at least as large. -/
def linkBytes : Nat := 8

/-- The size of a slot for one element: it holds the element or a free-list link. -/
def Layout.slotSize (element : Layout) : Nat :=
  roundUp (max element.size linkBytes) (max element.align linkBytes)

structure Arena where
  start : UInt64
  slots : Nat
  slotSize : Nat

namespace Arena

def totalSize (a : Arena) : Nat := a.slots * a.slotSize

/-- The distance of an address from the start; below the start it wraps around. -/
def offset (a : Arena) (address : UInt64) : Nat := (address - a.start).toNat

def contains (a : Arena) (address : UInt64) : Bool :=
  a.start ≤ address && a.offset address < a.totalSize

/-- The slot that starts at an address. -/
def slotAt? (a : Arena) (address : UInt64) : Option Nat :=
  if a.contains address && a.offset address % a.slotSize = 0 then
    some (a.offset address / a.slotSize)
  else none

/-- The address of a slot. -/
def address (a : Arena) : Handle UInt64 → UInt64
  | .inline index => a.start + .ofNat (index * a.slotSize)
  | .overflow block => block

/-- The slot at an address. -/
def locate (a : Arena) (address : UInt64) : Handle UInt64 :=
  match a.slotAt? address with
  | some index => .inline index
  | none => .overflow address

end Arena

end ArenaHash
