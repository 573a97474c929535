import ArenaHash.Memory.Heap

/-!
# The overflow allocators there are

The general heap, an allocator with the name that allocators have if they are given none, and
counting allocators, which are told apart by number.
-/

namespace ArenaHash

inductive Lender where
  /-- The general heap; handles under different names reach the same one. -/
  | global (name : String)
  | plain
  /-- The counting allocator of a number. -/
  | counting (index : Nat) (name : String)

namespace Lender

def defaultName : String := "nodepool overflow"

/-- The allocator of a container that was not given one. -/
def default : Lender := global defaultName

def name : Lender → String
  | global name => name
  | plain => "overflow"
  | counting _ name => name

/-- Whether two allocators are interchangeable. -/
def beq : Lender → Lender → Bool
  | global _, global _ | plain, plain => true
  | counting i _, counting j _ => i == j
  | _, _ => false

instance : Allocator Lender where
  beq := beq
  name := name

end Lender

end ArenaHash
