import ArenaHash.Memory.Lender
import ArenaHash.Proofs.System.Invariant

/-!
# Safety of the data structure

`Table.WellFormed` is what every operation relies on when it follows a handle: chains end, no node
is in two places, the nodes in chains are exactly the slots that are handed out, and all counts
agree. It holds of every container in every reachable system, with no assumption about hashes or
the equality of keys.
-/

namespace ArenaHash

/-- The links lead from `head` through exactly these nodes and end. -/
def Pool.Leads {p : Pool.Shape} {T A : Type} (nodes : Pool p (Node T) A) :
    Option Ref → List Ref → Prop
  | head, [] => head = none
  | head, q :: qs => head = some q ∧ ∃ n, nodes.read q = some n ∧ nodes.Leads n.next qs

theorem Pool.Segment.leads {p : Pool.Shape} {T A : Type} {nodes : Pool p (Node T) A}
    {head : Option Ref} {cs : List (Cell T)} (h : nodes.Segment head cs none) :
    nodes.Leads head (cs.map Cell.ref) := by
  induction cs generalizing head with
  | nil => exact h
  | cons c cs ih =>
    obtain ⟨hh, next, hn, hr⟩ := h
    exact ⟨hh, ⟨c.entry, next, c.hash⟩, hn, ih hr⟩

/-- A slot that is out: an inline one that was handed out and is not in the free list `free`, or an
overflow block with a node in it. -/
def Pool.HandedOut {p : Pool.Shape} {α A : Type} (nodes : Pool p α A) (free : List Nat) :
    Ref → Prop
  | .inline i => i < nodes.untouched ∧ i ∉ free
  | .overflow b => (nodes.blocks.read b).isSome

structure Table.WellFormed {s : Table.Shape} {T A : Type} (t : Table s T A) : Prop where
  sentinelEmpty : t.buckets.sentinelEmpty = true
  two_le_bucketCount : 2 ≤ t.bucketCount
  bucketOf_lt : ∀ hash, t.bucketOf hash < t.bucketCount
  chains : ∀ i, t.nodes.Leads (t.buckets.head i) (t.chain i)
  nodup : t.refs.Nodup
  inline_lt : ∀ i, .inline i ∈ t.refs → i < s.capacity
  handedOut : ∃ free, t.nodes.FreeChain t.nodes.freeList free ∧ free.Nodup ∧
    ∀ q, q ∈ t.refs ↔ t.nodes.HandedOut free q
  inlineLive : t.nodes.inlineLive = (t.refs.filterMap Handle.index?).length
  overflowLive : t.nodes.overflowLive = (t.refs.filterMap Handle.block?).length
  length_refs : t.refs.length = t.size
  live : t.nodes.live = t.size

variable {A : Type}

/-- The slots of a list that a pool holds are the ones handed out. -/
theorem Pool.Holds.handedOut {p : Pool.Shape} {T : Type} {nodes : Pool p (Node T) A}
    {live : List Ref} (h : nodes.Holds live) (hread : ∀ q ∈ live, (nodes.read q).isSome) :
    ∃ free, nodes.FreeChain nodes.freeList free ∧ free.Nodup ∧
      ∀ q, q ∈ live ↔ nodes.HandedOut free q := by
  obtain ⟨free, hc, hr⟩ := h.free
  have hn := hr.symm.nodup List.nodup_range
  refine ⟨free, hc, (List.nodup_append.mp hn).2.1, ?_⟩
  intro q
  cases q with
  | inline i =>
    constructor
    · exact fun hq => ⟨h.lt_untouched hq, fun hi => not_mem_of_free hr hi hq⟩
    · rintro ⟨hi, hfree⟩
      have hm := hr.mem_iff.mpr (List.mem_range.mpr hi)
      exact Handle.mem_index.mp ((List.mem_append.mp hm).resolve_right hfree)
  | overflow b => exact ⟨fun hq => hread _ hq, h.stored b⟩

variable [Allocator A]

theorem Table.Stores.wellFormed {s : Table.Shape} {T : Type} {t : Table s T A} {heap : Heap A}
    {rows : Rows T} {others : List (Loan A)} (h : t.Stores heap rows [] others) :
    t.WellFormed := by
  have hlive : (rows.all t.bucketCount ++ []).map Cell.ref = t.refs := by
    rw [List.append_nil, h.refs_eq]
  have hholds := h.keeps.holds
  have hsize := h.keeps.size
  rw [hlive] at hholds hsize
  have hread : ∀ q ∈ t.refs, (t.nodes.read q).isSome := by
    intro q hq
    rw [← hlive] at hq
    obtain ⟨c, hc, rfl⟩ := List.mem_map.mp hq
    obtain ⟨next, hn⟩ := h.carries_of_mem hc
    rw [hn]
    rfl
  exact
    { sentinelEmpty := h.keeps.sound.sentinelEmpty
      two_le_bucketCount := h.two_le_bucketCount
      bucketOf_lt := h.bucketOf_lt
      chains := fun i => by
        rw [h.chain_eq]
        exact (h.chains i).leads
      nodup := hholds.nodup
      inline_lt := fun i hi => hholds.lt_capacity hi i rfl
      handedOut := hholds.handedOut hread
      inlineLive := hholds.inlineLive
      overflowLive := hholds.overflowLive
      length_refs := hsize.symm
      live := hholds.live_eq.trans hsize.symm }

namespace System

open Profile.Container

/-- The blocks of the nodes of a container. -/
def nodeBlocks (C : Σ F : Profile, F.Container A) : List Block :=
  C.2.table.refs.filterMap Handle.block?

omit [Allocator A] in
theorem nodeBlocks_sublist (C : Σ F : Profile, F.Container A) :
    (nodeBlocks C).Sublist ((held C).map Loan.block) := by
  have hnodes : (C.2.table.nodes.loans C.2.table.refs).map Loan.block = nodeBlocks C := by
    simp [Pool.loans, nodeBlocks, Function.comp_def]
  rw [← hnodes]
  exact (List.sublist_append_left _ _).map _

omit [Allocator A] in
theorem flatMap_nodeBlocks_sublist (Cs : List (Σ F : Profile, F.Container A))
    (lost : List (Loan A)) :
    (Cs.flatMap nodeBlocks).Sublist ((Cs.flatMap held ++ lost).map Loan.block) := by
  rw [List.map_append, List.map_flatMap]
  refine List.Sublist.trans ?_ (List.sublist_append_left _ _)
  induction Cs with
  | nil => exact List.Sublist.refl _
  | cons C Cs ih => exact (nodeBlocks_sublist C).append ih

/-- Containers are well formed, the blocks of their nodes are out, and no two have one in common. -/
theorem Reachable.containers_wellFormed {w : System A} (h : Reachable w) :
    (∀ C ∈ w.containers, C.2.table.WellFormed ∧ ∀ b ∈ nodeBlocks C, w.heap.Outstanding b) ∧
      (w.containers.flatMap nodeBlocks).Nodup := by
  have hsub := flatMap_nodeBlocks_sublist w.containers w.abandoned
  refine ⟨fun C hC => ⟨?_, ?_⟩, hsub.nodup h.sound.lends.nodup⟩
  · obtain ⟨heap, rows, others, hs⟩ := h.sound.intact C hC
    exact hs.wellFormed
  · intro b hb
    exact (h.sound.lends.outstanding_iff b).mpr (hsub.mem (List.mem_flatMap.mpr ⟨C, hC, hb⟩))

/-- One slot, and three buckets until the first growth. -/
def oneSlot : Profile :=
  ⟨⟨1, 3, true, .cached, Caching.wordLayout 24, by decide⟩, Nat, Nat, Unit, inferInstance⟩

def insertUnder (hash : UInt64) (value : Nat) : Action oneSlot Lender :=
  .map (.ofFun fun _ _ => hash) (.insert (5 : Nat) value)

/-- One key inserted twice, under another hash each time. -/
def twoHashes : System Lender :=
  let first := (insertUnder 0 6).run (.new () .plain) { serves := fun _ _ _ => true }
  let second := (insertUnder 1 7).run first.1 first.2
  ⟨[⟨oneSlot, second.1⟩], second.2, []⟩

theorem Reachable.act {F : Profile} {c : F.Container A} {heap : Heap A} {lost : List (Loan A)}
    (action : Action F A) (h : Reachable ⟨[⟨F, c⟩], heap, lost⟩) :
    Reachable ⟨[⟨F, (action.run c heap).1⟩], (action.run c heap).2,
      action.abandoned c ++ lost⟩ :=
  h.step (@Step.act A _ [] [] _ _ _ _ action)

theorem reachable_twoHashes : Reachable twoHashes := by
  have h0 : Reachable ⟨[⟨oneSlot, .new () Lender.plain⟩], { serves := fun _ _ _ => true }, []⟩ :=
    (Reachable.start _).step (.build oneSlot () Lender.plain)
  have h1 := h0.act (insertUnder 0 6)
  have h2 := h1.act (insertUnder 1 7)
  exact h2

theorem wellFormed_twoHashes :
    twoHashes.containers.map (fun C => C.2.table.refs) = [[.inline 0, .overflow 0]] ∧
      (∀ C ∈ twoHashes.containers, C.2.table.WellFormed ∧
        ∀ b ∈ nodeBlocks C, twoHashes.heap.Outstanding b) ∧
      (twoHashes.containers.flatMap nodeBlocks).Nodup :=
  ⟨by decide, Reachable.containers_wellFormed reachable_twoHashes⟩

end System

end ArenaHash
