import ArenaHash.Proofs.Container.Load
import ArenaHash.Proofs.System.Copies
import ArenaHash.Proofs.System.Frugal

/-!
# Load factors in a system

A container that may overflow is built with load factor 1. As long as nobody replaces it, the
container is `Steady`: it has no more entries than buckets, and an insertion asks for a new array
only if all buckets are taken, and then for the least of the primes that doubles them. What the
hashes are does not matter, nor what is refused, nor what is done to the other containers.
-/

namespace ArenaHash

variable {F : Profile} {A : Type} [Allocator A]

/-- The array that an item asks for. -/
def Item.array? (item : Item F) (c : F.Container A) : Option Nat :=
  match item.manner with
  | .overwrite | .keep => if c.contains item.hashing item.key then none else c.table.due?
  | .beside => c.table.due?

section

variable {c : F.Container A} {heap : Heap A} {rows : Rows (F.Key × F.Value)}
  {others : List (Loan A)}

theorem Item.insert_gains (item : Item F) (h : c.table.Stores heap rows [] others)
    (ht : c.table.Tuned) :
    c.table.Gains (c.hasher item.hashing) heap (Item.insert c item heap).2.1.table := by
  unfold Item.insert
  cases item.manner with
  | overwrite => exact Keyed.gains_insert _ h ht _ _
  | keep => exact Keyed.gains_insertIfNew _ h ht _ _
  | beside => exact Keyed.gains_insertBeside _ h ht _ _

theorem Item.insert_requested (item : Item F) (h : c.table.Stores heap rows [] others)
    (ht : c.table.Tuned) :
    c.table.Requested heap (item.array? c) (Item.insert c item heap).2.2 := by
  unfold Item.insert Item.array?
  cases item.manner with
  | overwrite => exact Keyed.map_requested item.hashing h ht (.insert item.key item.value) rfl
  | keep =>
    have hcall := Keyed.map_requested item.hashing h ht
      (.insertIfNew item.key item.value id) rfl
    rwa [Keyed.insertIfNew_heap] at hcall
  | beside => exact Keyed.multimap_requested item.hashing h ht (.insert item.key item.value) rfl

variable (hF : F.Lax) (h : c.table.Stores heap rows [] others) (hc : c.table.Coherent)
  (hload : c.table.growth.maxLoad = Growth.defaultLoad) (hcarried : c.table.Carried)
include hF h hc hload hcarried

theorem insertMany_carried (items : List (Item F)) :
    (Keyed.insertMany Item.insert c items heap).2.1.table.growth.maxLoad = Growth.defaultLoad ∧
      (Keyed.insertMany Item.insert c items heap).2.1.table.Carried := by
  refine (insertMany_invariant (P := fun c' : F.Container A => c'.table.Coherent ∧
    c'.table.growth.maxLoad = Growth.defaultLoad ∧ c'.table.Carried) ?_ items h
      ⟨hc, hload, hcarried⟩).2
  rintro c' heap' rows' item h' ⟨hc', hload', hcarried'⟩
  have hroomed := item.insert_roomed c' heap'
  have htuned := hc'.tuned.roomed h' hroomed
  exact ⟨hc'.resized (hc'.tuned.allows_of_roomed h' hroomed) htuned,
    (hc'.tuned.maxLoad_roomed h' hroomed).trans hload',
    hcarried'.gains hc' hF.overflow hF.buckets_le hload' h' (item.insert_gains h' hc'.tuned)⟩

theorem Action.run_carried (action : Action F A) : (action.run c heap).1.table.Carried := by
  cases action with
  | map H call => exact Keyed.map_carried H h hcarried hc hF.overflow hF.buckets_le hload call
  | multimap H call =>
    exact Keyed.multimap_carried H h hcarried hc hF.overflow hF.buckets_le hload call
  | extend items => exact (insertMany_carried hF h hc hload hcarried items).2
  | pop position => exact hcarried.releases (.pop _ position heap)
  | setDelegate delegate => exact hcarried.releases (.setDelegate _ delegate heap)

end

namespace System

/-- `C` is a container of the reachable system `w` whose load factor has never been replaced by
another one, neither in it nor in those that it was copied from. -/
inductive Steady : System A → (Σ F : Profile, F.Container A) → Prop where
  | build {Cs : List (Σ F : Profile, F.Container A)} {heap : Heap A} {lost : List (Loan A)}
    (h : Reachable ⟨Cs, heap, lost⟩) (F : Profile) (builder : F.Builder) (delegate : A) :
    Steady ⟨⟨F, .new builder delegate⟩ :: Cs, heap, lost⟩ ⟨F, .new builder delegate⟩
  | collect {Cs : List (Σ F : Profile, F.Container A)} {heap heap' : Heap A}
    {lost : List (Loan A)} {F : Profile} {builder : F.Builder} {delegate : A}
    {items : List (Item F)} {c : F.Container A} (h : Reachable ⟨Cs, heap, lost⟩)
    (hr : Keyed.ofList Item.insert builder delegate items heap = (.ok c, heap')) :
    Steady ⟨⟨F, c⟩ :: Cs, heap', lost⟩ ⟨F, c⟩
  | act {pre post : List (Σ F : Profile, F.Container A)} {heap : Heap A} {lost : List (Loan A)}
    {F : Profile} {c : F.Container A} (action : Action F A)
    (h : Steady ⟨pre ++ ⟨F, c⟩ :: post, heap, lost⟩ ⟨F, c⟩)
    (hload : (action.run c heap).1.table.growth.maxLoad = c.table.growth.maxLoad) :
    Steady ⟨pre ++ ⟨F, (action.run c heap).1⟩ :: post, (action.run c heap).2,
      action.abandoned c ++ lost⟩ ⟨F, (action.run c heap).1⟩
  | copy {Cs : List (Σ F : Profile, F.Container A)} {heap heap' : Heap A} {lost : List (Loan A)}
    {F : Profile} {c copy : F.Container A} (h : Steady ⟨Cs, heap, lost⟩ ⟨F, c⟩)
    (hr : c.copy heap = (.ok copy, heap')) :
    Steady ⟨⟨F, copy⟩ :: Cs, heap', lost⟩ ⟨F, copy⟩
  | copyFrom {pre post : List (Σ F : Profile, F.Container A)} {heap heap' : Heap A}
    {lost : List (Loan A)} {F : Profile} {target source copy : F.Container A}
    (h : Steady ⟨pre ++ ⟨F, target⟩ :: post, heap, lost⟩ ⟨F, source⟩)
    (hs : ⟨F, source⟩ ∈ pre ++ post) (hr : source.copy heap = (.ok copy, heap')) :
    Steady ⟨pre ++ ⟨F, copy⟩ :: post, target.dispose heap', lost⟩ ⟨F, copy⟩
  /-- Something is done to others. -/
  | others {w w' : System A} {C : Σ F : Profile, F.Container A} (h : Steady w C)
    (hs : Step w w') (hC : C ∈ w'.containers) : Steady w' C

namespace Steady

variable {w : System A} {C : Σ F : Profile, F.Container A}

theorem mem (h : Steady w C) : C ∈ w.containers := by
  cases h with
  | build | collect | copy => exact List.mem_cons_self
  | act | copyFrom => simp
  | others _ _ hC => exact hC

theorem reachable (h : Steady w C) : Reachable w := by
  induction h with
  | build h F builder delegate => exact h.step (.build F builder delegate)
  | collect h hr => exact h.step (.collect hr)
  | act action _ _ ih => exact ih.step (.act action)
  | copy h hr ih => exact ih.step (.copy h.mem hr)
  | copyFrom _ hs hr ih => exact ih.step (.copyFrom hs hr)
  | others _ hs _ ih => exact ih.step hs

theorem stores (h : Steady w C) : ∃ rows others, C.2.table.Stores w.heap rows [] others := by
  obtain ⟨Cs, heap, lost⟩ := w
  obtain ⟨pre, post, rfl⟩ := List.append_of_mem h.mem
  obtain ⟨rows, hs⟩ := h.reachable.sound.focus
  exact ⟨rows, _, hs⟩

theorem carried (h : Steady w C) (hF : C.1.Lax) :
    C.2.table.growth.maxLoad = Growth.defaultLoad ∧ C.2.table.Carried := by
  induction h with
  | build h F builder delegate =>
    exact ⟨(Table.asBuilt_new hF.overflow delegate).maxLoad, Table.carried_of_empty rfl⟩
  | @collect Cs heap heap' lost F builder delegate items c h hr =>
    have hmany := insertMany_carried (c := .new builder delegate) hF
      (Table.stores_new delegate h.sound.lends) (Table.coherent_new delegate)
      (Table.asBuilt_new hF.overflow delegate).maxLoad (Table.carried_of_empty rfl) items
    rwa [Keyed.insertMany_of_ofList_ok hr] at hmany
  | act action h hload ih =>
    obtain ⟨hdefault, hcarried⟩ := ih hF
    obtain ⟨rows, others, hs⟩ := h.stores
    exact ⟨hload.trans hdefault,
      action.run_carried hF hs (h.reachable.coherent _ h.mem) hdefault hcarried⟩
  | copy h hr ih | copyFrom h _ hr ih =>
    obtain ⟨hdefault, hcarried⟩ := ih hF
    obtain ⟨rows, others, hs⟩ := h.stores
    obtain ⟨t', ht, rfl⟩ := Keyed.table_copy_of_ok hr
    have hsame := hs.samePlan_copy ht
    exact ⟨(congrArg Growth.maxLoad hsame.growth).trans hdefault,
      hcarried.of_le hsame.bucketCount (hs.size_copy ht).le⟩
  | others _ _ _ ih => exact ih hF

end Steady

/-- How a container is filled, and how an insertion makes it grow. -/
structure Filling (w : System A) (C : Σ F : Profile, F.Container A) : Prop where
  size_le : C.2.size ≤ C.2.table.bucketCount
  loadFactor_le : C.2.table.loadFactor.lt C.2.table.growth.maxLoad = true ∨
    C.2.table.loadFactor = C.2.table.growth.maxLoad
  /-- An array is due if there are fewer buckets than entries with one more. -/
  due : ∀ count, C.2.table.due? = some count → C.2.table.bucketCount < C.2.size + 1 ∧
    IsLeast {p | p ∈ primes ∧ 2 * C.2.table.bucketCount + 1 ≤ p} count
  /-- No insertion asks for another one. -/
  item : ∀ item : Item C.1,
    C.2.table.Requested w.heap (item.array? C.2) (Item.insert C.2 item w.heap).2.2
  map : ∀ {ρ : Type} (H : Hashing C.1.Builder C.1.Key) (call : Map.Call C.1.Key C.1.Value ρ),
    call.resizing = .grow →
      C.2.table.Requested w.heap (call.array? H C.2) (Map.perform H C.2 w.heap call).2.2
  multimap : ∀ {ρ : Type} (H : Hashing C.1.Builder C.1.Key)
    (call : Multimap.Call C.1.Key C.1.Value ρ), call.resizing = .grow →
      C.2.table.Requested w.heap (call.array? C.2) (Multimap.perform H C.2 w.heap call).2.2

theorem Steady.filling {w : System A} {C : Σ F : Profile, F.Container A} (h : Steady w C)
    (hF : C.1.Lax) (hsize : C.2.size ≤ 2 ^ 24) : w.Filling C := by
  obtain ⟨hload, hcarried⟩ := h.carried hF
  obtain ⟨rows, others, hs⟩ := h.stores
  have hc := h.reachable.coherent C h.mem
  have h2 := hs.two_le_bucketCount
  have hle : C.2.table.size ≤ C.2.table.bucketCount := by
    rcases hcarried with hle | hlarge
    · exact hle
    · exact hsize.trans hlarge
  refine ⟨hle, ?_, fun count hdue => ?_, fun item => item.insert_requested hs hc.tuned,
    fun H call hg => Keyed.map_requested H hs hc.tuned call hg,
    fun H call hg => Keyed.multimap_requested H hs hc.tuned call hg⟩
  · rw [hload]
    exact (Table.loadFactor_atMost h2 hle hsize).lt_or_eq
  · rw [hc.due?_eq hF.overflow hF.buckets_le hload h2 hle hsize] at hdue
    split at hdue
    · next hfull =>
      cases hdue
      refine ⟨Nat.lt_succ_of_le hfull.1.ge, isLeast_primeAtLeast ?_⟩
      unfold largestPrime
      omega
    · cases hdue

def renewal : Action oneSlot Lender :=
  .map (.ofFun fun _ k => .ofNat k) (.common .renew)

/-- The fourth of four keys finds no node in the larger array; then the container is renewed, and
three keys take all of its buckets. -/
def brimful : System Lender :=
  let heap : Heap Lender := { serves := fun events _ _ => events.length != 3 }
  let grown := (Action.extend (firstKeys 4)).run (.new () .plain) heap
  let renewed := renewal.run grown.1 grown.2
  let full := (Action.extend (firstKeys 3)).run renewed.1 renewed.2
  ⟨[⟨oneSlot, full.1⟩], full.2, []⟩

theorem Steady.alone {c : F.Container A} {heap : Heap A} {lost : List (Loan A)}
    (action : Action F A) (h : Steady ⟨[⟨F, c⟩], heap, lost⟩ ⟨F, c⟩)
    (hload : (action.run c heap).1.table.growth.maxLoad = c.table.growth.maxLoad) :
    Steady ⟨[⟨F, (action.run c heap).1⟩], (action.run c heap).2, action.abandoned c ++ lost⟩
      ⟨F, (action.run c heap).1⟩ :=
  @Steady.act A _ [] [] _ _ _ _ action h hload

theorem steady_brimful : ∀ C ∈ brimful.containers, Steady brimful C := by
  have h0 : Steady ⟨[⟨oneSlot, .new () Lender.plain⟩],
      { serves := fun events _ _ => events.length != 3 }, []⟩ ⟨oneSlot, .new () .plain⟩ :=
    .build (.start _) oneSlot () Lender.plain
  have h1 := h0.alone (.extend (firstKeys 4)) (by decide +kernel)
  have h2 := h1.alone renewal (by decide +kernel)
  have h3 := h2.alone (.extend (firstKeys 3)) (by decide +kernel)
  exact List.forall_mem_singleton.mpr h3

/-- The next key asks for seven buckets. -/
theorem filling_brimful :
    brimful.containers.map (fun C => (C.2.size, C.2.table.bucketCount, C.2.table.due?)) =
        [(3, 3, some 7)] ∧
      ∀ C ∈ brimful.containers, brimful.Filling C :=
  ⟨by decide +kernel, fun C hC => by
    obtain rfl := List.mem_singleton.mp hC
    exact (steady_brimful _ hC).filling lax_oneSlot (by decide +kernel)⟩

end System

end ArenaHash
