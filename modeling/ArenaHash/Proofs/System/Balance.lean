import ArenaHash.Proofs.System.Safety

/-!
# The balance of overflow memory

`held C` lists what a container has to return: the blocks of its nodes and its bucket array. In
every reachable system the outstanding blocks are what the containers hold and what was abandoned,
each once, and every block that came back did so once, through an allocator equal to the one that
served it. Containers that are gone leave only what was abandoned.
-/

namespace ArenaHash

variable {A : Type} [Allocator A]

namespace Profile.Container

/-- A container accounts for the blocks it holds, and each of them is on loan to it. -/
structure Balanced (heap : Heap A) (C : Σ F : Profile, F.Container A) : Prop where
  blocks : (held C).map Loan.block =
    C.2.table.refs.filterMap Handle.block? ++ C.2.table.buckets.grown.toList.map HeapRow.block
  length_held : (held C).length =
    C.2.table.nodes.overflowLive + C.2.table.buckets.isGrown.toNat
  usesOverflow : C.2.table.usesOverflow = true ↔ 0 < (held C).length
  lent : ∀ x ∈ held C, heap.Outstanding x.block ∧
    ∃ server, .served server x.block x.layout ∈ heap.events ∧ x.lender == server

theorem balanced_of_lends [EquivBEq A] {C : Σ F : Profile, F.Container A} {heap : Heap A}
    {loans : List (Loan A)} (hl : heap.Lends loans) (hw : C.2.table.WellFormed)
    (hC : ∀ x ∈ held C, x ∈ loans) : Balanced heap C := by
  have hblocks : (held C).map Loan.block =
      C.2.table.refs.filterMap Handle.block? ++
        C.2.table.buckets.grown.toList.map HeapRow.block := by
    simp [held, Table.loans, Pool.loans, Buckets.loans, HeapRow.loan, Function.comp_def]
  have hlength : (held C).length =
      C.2.table.nodes.overflowLive + C.2.table.buckets.isGrown.toNat := by
    have hgrown : C.2.table.buckets.grown.toList.length = C.2.table.buckets.isGrown.toNat := by
      unfold Buckets.isGrown
      cases C.2.table.buckets.grown <;> rfl
    have hl := congrArg List.length hblocks
    simp only [List.length_map, List.length_append] at hl
    rw [hl, hw.overflowLive, hgrown]
  refine ⟨hblocks, hlength, ?_, ?_⟩
  · rw [hlength, Table.usesOverflow]
    cases C.2.table.buckets.isGrown <;> simp
  · intro x hx
    obtain ⟨server, hopen, hs⟩ := hl.isOpen x (hC x hx)
    exact ⟨(hl.outstanding_iff _).mpr (List.mem_map_of_mem (hC x hx)), server,
      Heap.served_mem_of_borrowed hopen, hs.beq⟩

end Profile.Container

namespace System

open Profile.Container

/-- Blocks come back once and as they were served, and those that did not come back are the ones
held and abandoned. -/
structure Balanced (w : System A) : Prop where
  returned_once : ∀ b, w.heap.events.countP (Event.isReturnOf b) ≤ 1
  returned_as_served : ∀ later earlier lender b layout,
    w.heap.events = later ++ .returned lender b layout :: earlier →
      ∃ server, .served server b layout ∈ earlier ∧ lender == server
  served_once : ∀ b server layout server' layout', .served server b layout ∈ w.heap.events →
    .served server' b layout' ∈ w.heap.events → server = server' ∧ layout = layout'
  containers : ∀ C ∈ w.containers, Profile.Container.Balanced w.heap C
  nodup : ((w.containers.flatMap held ++ w.abandoned).map Loan.block).Nodup
  outstanding : ∀ b, w.heap.Outstanding b ↔
    b ∈ (w.containers.flatMap held ++ w.abandoned).map Loan.block
  leftover : w.containers = [] → ∀ b, w.heap.Outstanding b ↔ b ∈ w.abandoned.map Loan.block

theorem Reachable.memory_balanced [EquivBEq A] {w : System A} (h : Reachable w) : w.Balanced := by
  have hl := h.sound.lends
  refine ⟨fun b => (hl.settled.returns b).1, ?_, fun b _ _ _ _ => hl.settled.served_unique, ?_,
    hl.nodup, hl.outstanding_iff, ?_⟩
  · intro later earlier lender b layout hevents
    have hsettled := hl.settled
    rw [hevents] at hsettled
    obtain ⟨server, hserved, hs⟩ := hsettled.served_of_returned
    exact ⟨server, hserved, hs.beq⟩
  · intro C hC
    obtain ⟨heap, rows, others, hs⟩ := h.sound.intact C hC
    exact balanced_of_lends hl hs.wellFormed fun x hx =>
      List.mem_append_left _ (List.mem_flatMap.mpr ⟨C, hC, hx⟩)
  · intro hnone b
    have hout := hl.outstanding_iff b
    simpa [hnone] using hout

instance : EquivBEq Lender where
  rfl {a} := by cases a <;> simp [BEq.beq, Lender.beq]
  symm {a b} h := by cases a <;> cases b <;> simp_all [BEq.beq, Lender.beq]
  trans {a b c} hab hbc := by cases a <;> cases b <;> cases c <;> simp_all [BEq.beq, Lender.beq]

/-- A container is filled past its slot, given an equal allocator and dropped. -/
def relent : System Lender :=
  let first := (insertUnder 0 6).run (.new () (.global "first")) { serves := fun _ _ _ => true }
  let second := (insertUnder 1 7).run first.1 first.2
  let third := (Action.setDelegate (.global "second")).run second.1 second.2
  ⟨[], third.1.dispose third.2, []⟩

theorem reachable_relent : Reachable relent := by
  have h0 : Reachable ⟨[⟨oneSlot, .new () (Lender.global "first")⟩],
      { serves := fun _ _ _ => true }, []⟩ :=
    (Reachable.start _).step (.build oneSlot () (Lender.global "first"))
  have h1 := h0.act (insertUnder 0 6)
  have h2 := h1.act (insertUnder 1 7)
  have h3 := h2.act (.setDelegate (.global "second"))
  exact h3.step (@Step.drop Lender _ [] [] _ _ _ _)

theorem memory_balanced_relent :
    relent.heap.events = [.returned (.global "second") 0 ⟨32, 8⟩,
        .served (.global "first") 0 ⟨32, 8⟩] ∧ relent.Balanced :=
  ⟨by rfl, Reachable.memory_balanced reachable_relent⟩

end System

end ArenaHash
