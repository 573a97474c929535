import ArenaHash.Memory.Lender

/-!
# The overflow allocators of a script

A script lists its overflow allocators; containers name them by their place in the list, which is
the number of a counting allocator. A counting allocator may refuse: while it is told to, once it
has served a given number of requests, or if a request is too large. Only what happens at counting
allocators is reported.
-/

namespace ArenaHash

/-- An allocator of the list and when it refuses. -/
structure LenderSpec where
  lender : Lender
  failAfter : Option Nat
  maxSize : Option Nat

/-- The report of an event, if it is at a counting allocator. -/
def Event.report? : Event Lender → Option String
  | served (.counting index _) _ l => some s!"a{index}+{l.size}/{l.align}"
  | refused (.counting index _) l => some s!"a{index}!{l.size}/{l.align}"
  | returned (.counting index _) _ l => some s!"a{index}-{l.size}/{l.align}"
  | _ => none

/-- Whether an event is a request that `lender` served. -/
def Event.isServedBy (lender : Lender) : Event Lender → Bool
  | served other _ _ => other == lender
  | _ => false

structure World where
  specs : List LenderSpec
  /-- The places of the allocators that are told to refuse. -/
  refusing : List Nat
  /-- What the `salt` builder adds to its hashes. -/
  salt : UInt64
  heap : Heap Lender

namespace World

/-- Whether a request is served. -/
def serves (specs : List LenderSpec) (refusing : List Nat) (events : List (Event Lender))
    (lender : Lender) (layout : Layout) : Bool :=
  match lender with
  | .counting index _ =>
    match specs[index]? with
    | none => true
    | some spec =>
      !refusing.contains index
        && spec.failAfter.all (events.countP (Event.isServedBy lender) < ·)
        && spec.maxSize.all (layout.size ≤ ·)
  | _ => true

def new (specs : List LenderSpec) : World where
  specs := specs
  refusing := []
  salt := 0
  heap := { serves := serves specs [] }

/-- The allocator at a place of the list; the default one if no place is given. -/
def lender (w : World) (index : Option Nat) : Lender :=
  ((index.bind (w.specs[·]?)).map LenderSpec.lender).getD .default

/-- The places of the allocators that are interchangeable with one. -/
def indicesOf (w : World) (lender : Lender) : List Nat :=
  (List.range w.specs.length).filter fun i => w.specs[i]?.any (·.lender == lender)

/-- Tells an allocator to refuse, or not to any more. -/
def refuse (w : World) (index : Nat) (on : Bool) : World :=
  let others := w.refusing.filter (· != index)
  let refusing := if on then index :: others else others
  { w with refusing, heap := { w.heap with serves := serves w.specs refusing } }

/-- The reports of what happened since `before`, in order. -/
def reportsSince (w before : World) : List String :=
  let fresh := w.heap.events.length - before.heap.events.length
  (w.heap.events.take fresh).reverse.filterMap Event.report?

end World

end ArenaHash
