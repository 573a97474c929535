/-!
# Sets of code points

A property of characters is carried as the closed ranges of code points that have it.
-/

namespace ArenaHash

/-- Closed ranges of code points. -/
abbrev CodeRanges := List (Nat × Nat)

namespace CodeRanges

def contains (ranges : CodeRanges) (c : Char) : Bool :=
  ranges.any fun (first, last) => first ≤ c.toNat && c.toNat ≤ last

/-- Whether the ranges are in order, with a gap between any two neighbours. -/
def isAscending : CodeRanges → Bool
  | [] => true
  | [(first, last)] => first ≤ last
  | (first, last) :: (next, stop) :: rest =>
    first ≤ last && last + 1 < next && isAscending ((next, stop) :: rest)

/-- The number of code points in the ranges. -/
def size (ranges : CodeRanges) : Nat :=
  ranges.foldl (fun n (first, last) => n + (last + 1 - first)) 0

theorem contains_iff {ranges : CodeRanges} {c : Char} :
    ranges.contains c = true ↔ ∃ r ∈ ranges, r.1 ≤ c.toNat ∧ c.toNat ≤ r.2 := by
  simp [contains]

end CodeRanges

end ArenaHash
