import ArenaHash.Table.Basic

/-!
# Walks over a table

A `Cursor` goes through the buckets in order and through each chain front to back. It counts the
nodes still to come and stops at that count, or at the sentinel. A `RunCursor` goes along a
stretch of one chain.
-/

namespace ArenaHash

/-- The buckets not yet entered, sentinel last, and the position in the current chain. -/
structure Cursor where
  buckets : List (Option Ref)
  next : Option Ref
  remaining : Nat

namespace Cursor

variable {s : Table.Shape} {T A : Type}

/-- The head of the next chain that is not empty, and the buckets after it. -/
def enter : List (Option Ref) → Option (Ref × List (Option Ref))
  | [] | [_] => none
  | some h :: rest => some (h, rest)
  | none :: rest => enter rest

/-- Steps onto the next node. -/
def step? (t : Table s T A) (c : Cursor) : Option (Ref × Cursor) :=
  match c.next with
  | some h => some (h, { c with next := t.nodes.next h, remaining := c.remaining - 1 })
  | none =>
    if c.remaining = 0 then none
    else
      (enter c.buckets).map fun (h, buckets) =>
        (h, { buckets, next := t.nodes.next h, remaining := c.remaining - 1 })

end Cursor

/-- A stretch of a chain, given by its first node and its length. -/
structure RunCursor where
  next : Option Ref
  remaining : Nat

namespace RunCursor

variable {s : Table.Shape} {T A : Type}

def step? (t : Table s T A) (c : RunCursor) : Option (Ref × RunCursor) :=
  if c.remaining = 0 then none
  else c.next.map fun h => (h, { next := t.nodes.next h, remaining := c.remaining - 1 })

end RunCursor

namespace Table

variable {s : Shape} {T A : Type}

/-- A walk over all nodes. -/
def cursor (t : Table s T A) : Cursor := ⟨t.buckets.row.toList, none, t.size⟩

/-- A walk over the first stretch of matching nodes. -/
def runCursor (t : Table s T A) (hash : UInt64) (test : T → Bool) : RunCursor :=
  ⟨t.find? hash test, (t.equalRun hash test).length⟩

end Table

end ArenaHash
