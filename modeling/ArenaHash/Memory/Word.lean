/-!
# Machine words

Sizes, counts and addresses are 64-bit words.
-/

namespace ArenaHash

/-- The largest machine word. -/
def maxWord : Nat := 0xffffffffffffffff

end ArenaHash
