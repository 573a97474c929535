import ArenaHash.Container.RepeatedKeys
import ArenaHash.Container.UniqueKeys
import ArenaHash.Script.Command
import ArenaHash.Script.Walker
import ArenaHash.Text.Listing

/-!
# The four kinds of containers in scripts

A family is what scripts need to know of one kind of container: how it inserts, looks up,
compares and is shown. Everything else is the same for all kinds.
-/

namespace ArenaHash

/-- A container over the keys, hash builders and allocators of scripts. -/
abbrev Scripted (s : Table.Shape) (V : Type) := Keyed s Key V Lender Builder

structure Family (s : Table.Shape) (V : Type) where
  kind : Kind
  insertion : Hashing Builder Key → Keyed.Insertion (Key × V) (Scripted s V) Lender
  /-- Inserts one entry. -/
  insert : Hashing Builder Key → Scripted s V → Key → V → Heap Lender →
    Answer × Scripted s V × Heap Lender
  get : Hashing Builder Key → Scripted s V → Key → Answer
  count : Hashing Builder Key → Scripted s V → Key → Nat
  beq : Hashing Builder Key → Scripted s V → Scripted s V → Bool
  /-- What is answered of an entry that was to be removed. -/
  erased : Option (Key × V) → Answer
  showEntry : Key × V → Answer
  showValue : V → Answer
  listing : List (Key × V) → Listing
  change : Affine → V → V

namespace Family

variable {s : Table.Shape} {V : Type}

def showPair (entry : Key × Value) : Answer := .list [.key entry.1, .value entry.2]

def showKey (entry : Key × V) : Answer := .key entry.1

def keyAtom (k : Key) : Listing := .atom k.toText

def valueAtom (v : Value) : Listing := .atom v.toText

/-- Maps answer the value that was replaced or removed. -/
def maps : Family s Value where
  kind := .map
  insertion := Map.insertion
  insert H c k v heap :=
    let (result, rest) := Map.insert H c k v heap
    (.ofExcept (.ofOption fun old => .list [.value old]) result, rest)
  get H c k := .ofOption .value (c.get? H k)
  count H c k := Map.countKey H c k
  beq H a b := Map.beq H a b
  erased := .ofOption fun entry => .list [.value entry.2]
  showEntry := showPair
  showValue := .value
  listing entries := .braced (entries.map fun (k, v) => .entry (keyAtom k) (valueAtom v))
  change := Value.change

/-- Sets answer whether a key was new or was there. -/
def sets : Family s Unit where
  kind := .set
  insertion H c item heap := KeySet.insertion H c item.1 heap
  insert H c k _ heap :=
    let (result, rest) := KeySet.insert H c k heap
    (.ofExcept .flag result, rest)
  get H c k := .ofOption .key (KeySet.get? H c k)
  count H c k := Map.countKey H c k
  beq := KeySet.beq
  erased entry := .flag entry.isSome
  showEntry := showKey
  showValue _ := .nothing
  listing entries := .braced (entries.map fun (k, _) => keyAtom k)
  change _ v := v

def multimaps : Family s Value where
  kind := .multimap
  insertion := Multimap.insertion
  insert H c k v heap :=
    let (result, rest) := Multimap.insert H c k v heap
    (.ofUnit .error result, rest)
  get H c k := .ofOption .value (c.get? H k)
  count H c k := c.count H k
  beq H a b := Multimap.beq H a b
  erased := .ofOption fun entry => .list [.value entry.2]
  showEntry := showPair
  showValue := .value
  listing entries := .bracketed (entries.map fun (k, v) => .tuple [keyAtom k, valueAtom v])
  change := Value.change

def bags : Family s Unit where
  kind := .multiset
  insertion H c item heap := KeyBag.insertion H c item.1 heap
  insert H c k _ heap :=
    let (result, rest) := KeyBag.insert H c k heap
    (.ofUnit .error result, rest)
  get H c k := .ofOption .key (KeyBag.get? H c k)
  count H c k := c.count H k
  beq := KeyBag.beq
  erased entry := .flag entry.isSome
  showEntry := showKey
  showValue _ := .nothing
  listing entries := .bracketed (entries.map fun (k, _) => keyAtom k)
  change _ v := v

/-! ## Showing -/

variable (f : Family s V)

def showFacet : Facet → Key × V → Answer
  | .entries, entry => f.showEntry entry
  | .keys, entry => .key entry.1
  | .values, entry => f.showValue entry.2

def info (w : World) (c : Scripted s V) : ContainerInfo where
  size := c.size
  isEmpty := c.isEmpty
  capacity := s.capacity
  canOverflow := s.overflow
  usesOverflow := c.table.usesOverflow
  bucketCount := c.table.bucketCount
  loadFactor := c.table.loadFactor
  maxLoad := c.table.growth.maxLoad
  builder := c.builder
  lender := w.info c.delegate

/-- The buckets that are not empty, with their lengths; one index past the last bucket is asked
for too. -/
def chainLengths (c : Scripted s V) : List (Nat × Nat) :=
  ((List.range (c.table.bucketCount + 1)).map fun i => (i, c.table.chainLength i)).filter
    (·.2 != 0)

/-! ## Walks -/

/-- The walk over the entries, showing one facet of each. -/
def iterWalker (c : Scripted s V) (facet : Facet) : Walker Cursor where
  left := Cursor.remaining
  step cursor := (c.next? cursor).map fun (entry, cursor) => (f.showFacet facet entry, cursor)

/-- The walk over a stretch of equal keys. -/
def runWalker (c : Scripted s V) (facet : Facet) : Walker RunCursor where
  left := RunCursor.remaining
  step cursor := (c.nextInRun? cursor).map fun (entry, cursor) =>
    (f.showFacet facet entry, cursor)

/-- The walk that changes values as it goes and shows them afterwards. The number added grows by
one with each entry. -/
def changeWalker (facet : Facet) : Walker (Scripted s V × Cursor × Affine) where
  left := fun (_, cursor, _) => cursor.remaining
  step := fun (c, cursor, change) =>
    (c.changeNext? cursor (f.change change)).map fun (entry, c, cursor) =>
      (f.showFacet facet entry, c, cursor, { change with add := change.add + 1 })

/-- The walk that takes the entries out. -/
def popWalker : Walker (Scripted s V × Nat × Heap Lender) where
  left := fun (c, _, _) => c.size
  step := fun (c, position, heap) =>
    let (entry, rest) := c.pop position heap
    entry.map fun entry => (f.showEntry entry, rest.2.1, rest.1, rest.2.2)

/-- Filters the entries: each is changed first and then kept or not. Answers the keys seen. -/
def filter (c : Scripted s V) (sieve : Sieve) (change : Affine) (heap : Heap Lender) :
    Answer × Scripted s V × Heap Lender :=
  let keep := fun (seen : List Key) (k : Key) (v : V) =>
    (sieve.keeps seen.length k, f.change change v, k :: seen)
  let (seen, rest) := c.filter keep [] heap
  (.list (seen.reverse.map .key), rest)

end Family

end ArenaHash
