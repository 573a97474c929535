import ArenaHash.Proofs.Container.Storage

/-!
# Systems of containers

Any number of containers of any types share one heap and the overflow allocators behind it. A
system takes these steps, each at any time and on any of its containers:

- a container is built, from nothing or from a list of items, or copied; both may fail;
- a container is acted on: a call, a list of insertions, taking one entry out, or a new overflow
  allocator. Each call comes with hashes of its own, so the same key may hash differently from
  call to call, and two equal keys in one call;
- a container is replaced by a copy of another, two change places, or one is dropped.

An iterator that owns a container takes entries out and is dropped. `abandoned` records the loans
of the nodes that were live in a container when it was told to forget its memory.
-/

namespace ArenaHash

/-- The type of a container. -/
structure Profile : Type 1 where
  shape : Table.Shape
  Key : Type
  Value : Type
  Builder : Type
  beq : BEq Key

namespace Profile

instance (F : Profile) : BEq F.Key := F.beq

abbrev Container (F : Profile) (A : Type) := Keyed F.shape F.Key F.Value A F.Builder

end Profile

/-- How an item is inserted: as into a map, a key set, or a multimap or key bag. -/
inductive Manner where
  | overwrite
  | keep
  | beside

structure Item (F : Profile) where
  manner : Manner
  hashing : Hashing F.Builder F.Key
  key : F.Key
  value : F.Value

variable {F : Profile} {A : Type} [Allocator A]

def Item.insert : Keyed.Insertion (Item F) (F.Container A) A := fun c item heap =>
  match item.manner with
  | .overwrite => Map.insertion item.hashing c (item.key, item.value) heap
  | .keep =>
    let (result, c, heap) := Map.insertIfNew item.hashing c item.key item.value heap
    (result.map fun _ => (), c, heap)
  | .beside => Multimap.insertion item.hashing c (item.key, item.value) heap

/-- What is done to one container. -/
inductive Action (F : Profile) (A : Type) : Type 1 where
  | map {ρ : Type} (H : Hashing F.Builder F.Key) (call : Map.Call F.Key F.Value ρ)
  | multimap {ρ : Type} (H : Hashing F.Builder F.Key) (call : Multimap.Call F.Key F.Value ρ)
  | extend (items : List (Item F))
  | pop (position : Nat)
  | setDelegate (delegate : A)

namespace Action

def run (c : F.Container A) (heap : Heap A) : Action F A → F.Container A × Heap A
  | map H call => (Map.perform H c heap call).2
  | multimap H call => (Multimap.perform H c heap call).2
  | extend items => (Keyed.insertMany Item.insert c items heap).2
  | pop position => (c.pop position heap).2.2
  | setDelegate delegate => ((c.setDelegate delegate).2, heap)

/-- The loans that an action leaves to no one. -/
def abandoned (c : F.Container A) : Action F A → List (Loan A)
  | map _ call => call.abandoned c
  | multimap _ call => call.abandoned c
  | _ => []

end Action

structure System (A : Type) : Type 1 where
  containers : List (Σ F : Profile, F.Container A)
  heap : Heap A
  abandoned : List (Loan A)

namespace System

inductive Step : System A → System A → Prop where
  | build {Cs : List (Σ F : Profile, F.Container A)} {heap : Heap A} {lost : List (Loan A)}
    (F : Profile) (builder : F.Builder) (delegate : A) :
    Step ⟨Cs, heap, lost⟩ ⟨⟨F, .new builder delegate⟩ :: Cs, heap, lost⟩
  | collect {Cs : List (Σ F : Profile, F.Container A)} {heap heap' : Heap A}
    {lost : List (Loan A)} {F : Profile} {builder : F.Builder} {delegate : A}
    {items : List (Item F)} {c : F.Container A}
    (h : Keyed.ofList Item.insert builder delegate items heap = (.ok c, heap')) :
    Step ⟨Cs, heap, lost⟩ ⟨⟨F, c⟩ :: Cs, heap', lost⟩
  | collectFailed {Cs : List (Σ F : Profile, F.Container A)} {heap heap' : Heap A}
    {lost : List (Loan A)} {F : Profile} {builder : F.Builder} {delegate : A}
    {items : List (Item F)} {e : MemoryError}
    (h : Keyed.ofList Item.insert builder delegate items heap = (.error e, heap')) :
    Step ⟨Cs, heap, lost⟩ ⟨Cs, heap', lost⟩
  | act {pre post : List (Σ F : Profile, F.Container A)} {heap : Heap A} {lost : List (Loan A)}
    {F : Profile} {c : F.Container A} (action : Action F A) :
    Step ⟨pre ++ ⟨F, c⟩ :: post, heap, lost⟩
      ⟨pre ++ ⟨F, (action.run c heap).1⟩ :: post, (action.run c heap).2,
        action.abandoned c ++ lost⟩
  | copy {Cs : List (Σ F : Profile, F.Container A)} {heap heap' : Heap A} {lost : List (Loan A)}
    {F : Profile} {c copy : F.Container A} (hc : ⟨F, c⟩ ∈ Cs)
    (h : c.copy heap = (.ok copy, heap')) :
    Step ⟨Cs, heap, lost⟩ ⟨⟨F, copy⟩ :: Cs, heap', lost⟩
  | copyFailed {Cs : List (Σ F : Profile, F.Container A)} {heap heap' : Heap A}
    {lost : List (Loan A)} {F : Profile} {c : F.Container A} {e : MemoryError} (hc : ⟨F, c⟩ ∈ Cs)
    (h : c.copy heap = (.error e, heap')) :
    Step ⟨Cs, heap, lost⟩ ⟨Cs, heap', lost⟩
  | copyFrom {pre post : List (Σ F : Profile, F.Container A)} {heap heap' : Heap A}
    {lost : List (Loan A)} {F : Profile} {target source copy : F.Container A}
    (hs : ⟨F, source⟩ ∈ pre ++ post) (h : source.copy heap = (.ok copy, heap')) :
    Step ⟨pre ++ ⟨F, target⟩ :: post, heap, lost⟩
      ⟨pre ++ ⟨F, copy⟩ :: post, target.dispose heap', lost⟩
  | swap {pre mid post : List (Σ F : Profile, F.Container A)} {heap : Heap A}
    {lost : List (Loan A)} {C D : Σ F : Profile, F.Container A} :
    Step ⟨pre ++ C :: mid ++ D :: post, heap, lost⟩ ⟨pre ++ D :: mid ++ C :: post, heap, lost⟩
  | drop {pre post : List (Σ F : Profile, F.Container A)} {heap : Heap A} {lost : List (Loan A)}
    {F : Profile} {c : F.Container A} :
    Step ⟨pre ++ ⟨F, c⟩ :: post, heap, lost⟩ ⟨pre ++ post, c.dispose heap, lost⟩

/-- The systems that come about from an empty one, whatever its heap serves and refuses. -/
inductive Reachable : System A → Prop where
  | start (serves : List (Event A) → A → Layout → Bool) : Reachable ⟨[], { serves }, []⟩
  | step {w w' : System A} (h : Reachable w) (hs : Step w w') : Reachable w'

end System

end ArenaHash
