import ArenaHash.Memory.Heap

/-!
# Contents of overflow blocks

The elements that a pool keeps in overflow blocks, by block number. Main statements: what is read
after a write and after a removal.
-/

namespace ArenaHash

/-- Elements by block, each block at most once. -/
abbrev Blocks (α : Type) := List (Block × α)

namespace Blocks

variable {α : Type}

def read : Blocks α → Block → Option α
  | [], _ => none
  | (c, v) :: r, b => if c = b then some v else read r b

def write : Blocks α → Block → α → Blocks α
  | [], b, w => [(b, w)]
  | (c, v) :: r, b, w => if c = b then (b, w) :: r else (c, v) :: write r b w

def erase : Blocks α → Block → Blocks α
  | [], _ => []
  | (c, v) :: r, b => if c = b then erase r b else (c, v) :: erase r b

theorem read_write (bs : Blocks α) (b c : Block) (w : α) :
    (bs.write b w).read c = if b = c then some w else bs.read c := by
  induction bs with
  | nil => simp [write, read]
  | cons x r ih =>
    obtain ⟨d, v⟩ := x
    by_cases hd : d = b
    · by_cases hc : b = c <;> simp [write, read, hd, hc]
    · by_cases hc : b = c
      · subst hc
        simp [write, read, hd, ih]
      · simp [write, read, hd, hc, ih]

theorem read_erase (bs : Blocks α) (b c : Block) :
    (bs.erase b).read c = if b = c then none else bs.read c := by
  induction bs with
  | nil => simp [erase, read]
  | cons x r ih =>
    obtain ⟨d, v⟩ := x
    by_cases hd : d = b
    · by_cases hc : b = c
      · subst hc
        simp [erase, hd, ih]
      · simp [erase, read, hd, ih, hc]
    · by_cases hc : b = c
      · subst hc
        simp [erase, read, hd, ih]
      · simp [erase, read, hd, hc, ih]

end Blocks

end ArenaHash
