import ArenaHash.Pool.Address
import ArenaHash.Text.Listing

/-!
# Elements of scripted pools

The kinds of element a pool is tried with differ in size and alignment. An element is shown as
the number that its bytes make up.

Answers tell where an address lies and never the address itself, so the arena may start anywhere.
It is put below every overflow block.
-/

namespace ArenaHash

inductive Element where
  | empty
  | byte
  | twoBytes
  | threeBytes
  | word
  | doubleWord
  | cacheLine

namespace Element

def layout : Element → Layout
  | empty => ⟨0, 1⟩
  | byte => ⟨1, 1⟩
  | twoBytes => ⟨2, 2⟩
  | threeBytes => ⟨3, 1⟩
  | word => ⟨8, 8⟩
  | doubleWord => ⟨16, 16⟩
  | cacheLine => ⟨64, 64⟩

/-- What is kept of a number: as many low bytes as the element has. -/
def truncate (e : Element) (v : Nat) : Nat := v % (1 <<< (8 * e.layout.size))

/-- An arena for a number of elements. -/
def arena (e : Element) (slots : Nat) : Arena where
  start := 0x100000
  slots := slots
  slotSize := e.layout.slotSize

/-- The address of an overflow block. Blocks of no size all lie at the least aligned address. -/
def blockAddress (e : Element) (block : Block) : UInt64 :=
  if e.layout.size = 0 then .ofNat e.layout.align else 0x100000000 + 64 * .ofNat block

end Element

/-- What stands for an address. -/
def addressMark : String := "PTR"

def Arena.listing (a : Arena) : Listing :=
  .record "InlineArena"
    [("start", addressMark), ("slots", toString a.slots), ("buffer_size", toString a.totalSize)]

/-- A handle with its block left out. -/
def Handle.toText {β : Type} : Handle β → String
  | inline index => s!"Inline({index})"
  | overflow _ => s!"Overflow({addressMark})"

end ArenaHash
