import ArenaHash.Memory.Heap

/-!
# Handles

A slot handed out by a pool is named either by its index among the inline slots or by the
overflow block it is in. An index stays valid when the pool is moved in memory.
-/

namespace ArenaHash

inductive Handle (β : Type) where
  | inline (index : Nat)
  | overflow (block : β)
  deriving DecidableEq

namespace Handle

def isInline {β : Type} : Handle β → Bool
  | inline _ => true
  | overflow _ => false

/-- The same slot, with its overflow block named by `f`. -/
def map {β γ : Type} (f : β → γ) : Handle β → Handle γ
  | inline index => inline index
  | overflow block => overflow (f block)

end Handle

/-- A slot of a pool. -/
abbrev Ref := Handle Block

end ArenaHash
