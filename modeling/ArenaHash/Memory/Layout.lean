import ArenaHash.Memory.Word

/-!
# Sizes of memory blocks

A layout is the size and alignment of a block. An array of `count` elements has a layout only if
`count` is a machine word and its size, rounded up to the alignment, stays within the signed half of
the address space.
-/

namespace ArenaHash

structure Layout where
  size : Nat
  align : Nat
  deriving DecidableEq

namespace Layout

/-- One more than the largest size of a block. -/
def sizeLimit : Nat := 1 <<< 63

def array? (element : Layout) (count : Nat) : Option Layout :=
  if count ≤ maxWord ∧ element.size * count + element.align ≤ sizeLimit then
    some { element with size := element.size * count }
  else none

/-- The least multiple of `unit` that is at least `n`. -/
def roundUp (n unit : Nat) : Nat := (n + unit - 1) / unit * unit

end Layout

end ArenaHash
