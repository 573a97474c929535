import ArenaHash.Memory.Error
import ArenaHash.Memory.Layout

/-!
# Overflow allocators and the heap behind them

An overflow allocator is a value with a name. Two allocators that compare equal are
interchangeable: a block served through one may be returned through the other.

The heap answers their requests. Whether it serves one is up to `serves`, which sees all that
happened before; a served block gets a number that no earlier block has. Every request and every
return is recorded.
-/

namespace ArenaHash

class Allocator (A : Type) extends BEq A where
  name : A → String

/-- The number of a block; blocks are numbered in the order in which they are served. -/
abbrev Block := Nat

inductive Event (A : Type) where
  | served (lender : A) (block : Block) (layout : Layout)
  | refused (lender : A) (layout : Layout)
  | returned (lender : A) (block : Block) (layout : Layout)

structure Heap (A : Type) where
  /-- Whether a request is served, given the events so far, newest first. -/
  serves : List (Event A) → A → Layout → Bool
  /-- What happened so far, newest first. -/
  events : List (Event A) := []
  nextBlock : Block := 0

namespace Heap

variable {A : Type} [Allocator A]

def request (heap : Heap A) (lender : A) (layout : Layout) : Except MemoryError Block × Heap A :=
  if heap.serves heap.events lender layout then
    (.ok heap.nextBlock,
      { heap with
        events := .served lender heap.nextBlock layout :: heap.events
        nextBlock := heap.nextBlock + 1 })
  else
    (.error (.refused (Allocator.name lender) layout.size layout.align),
      { heap with events := .refused lender layout :: heap.events })

/-- Takes a block back through `lender`. -/
def giveBack (heap : Heap A) (lender : A) (block : Block) (layout : Layout) : Heap A :=
  { heap with events := .returned lender block layout :: heap.events }

theorem serves_request (heap : Heap A) (lender : A) (layout : Layout) :
    (heap.request lender layout).2.serves = heap.serves := by
  unfold request
  split <;> rfl

end Heap

end ArenaHash
