import ArenaHash.Proofs.System.Balance
import ArenaHash.Proofs.System.Redistribution
import Mathlib.Data.List.Flatten

/-!
# Replacing allocators in a system

A container looks at the count of its overflow nodes and at its bucket array when it is given
another allocator. In a reachable system these two are all that it holds, so an allocator that
differs is refused exactly while a block is out, and the blocks of a container always come from an
allocator equal to the one it would return them through.
-/

namespace ArenaHash

variable {A : Type}

namespace Keyed

variable {s : Table.Shape} {K V S : Type}

/-- The container with another allocator and nothing else changed. -/
def withDelegate (c : Keyed s K V A S) (delegate : A) : Keyed s K V A S :=
  { c with table := { c.table with nodes := { c.table.nodes with delegate } } }

/-- The overflow blocks that a container counts: its nodes and the bucket array. -/
def outstanding (c : Keyed s K V A S) : Nat :=
  c.table.nodes.overflowLive + c.table.buckets.isGrown.toNat

/-- The check of the bucket array and that of the nodes come to one check of both. -/
theorem setDelegate_eq [Allocator A] (c : Keyed s K V A S) (candidate : A) :
    c.setDelegate candidate =
      if 0 < c.outstanding ∧ candidate != c.delegate then
        (.error (.busy (Allocator.name c.delegate) c.outstanding), c)
      else (.ok (), c.withDelegate candidate) := by
  have hdelegate : c.table.nodes.delegate = c.delegate := rfl
  have htable : c.table.delegate = c.delegate := rfl
  unfold setDelegate Table.setDelegate Pool.setDelegate outstanding withDelegate
  rw [hdelegate, htable]
  cases hgrown : c.table.buckets.isGrown <;> cases hne : candidate != c.delegate
  · simp
  · by_cases hlive : 0 < c.table.nodes.overflowLive <;> simp [hlive]
  · simp
  · simp

end Keyed

variable [Allocator A]

namespace System

open Profile.Container

/-- What it comes to that a container of a system is given another allocator. -/
structure Relending (w : System A) (C : Σ F : Profile, F.Container A) : Prop where
  /-- A differing allocator is refused exactly while blocks are held, and then their number is
  told; one that is accepted is all that changes. -/
  replaced : ∀ candidate : A, C.2.setDelegate candidate =
    if 0 < (held C).length ∧ candidate != C.2.delegate then
      (.error (.busy (Allocator.name C.2.delegate) (held C).length), C.2)
    else (.ok (), C.2.withDelegate candidate)
  /-- The blocks held are those of the nodes in chains and of the bucket array. -/
  blocks : (held C).map Loan.block = nodeBlocks C ++
    C.2.table.buckets.grown.toList.map HeapRow.block
  /-- Each is counted once and is not one of those that were abandoned. -/
  apart : ((held C).map Loan.block ++ w.abandoned.map Loan.block).Nodup
  /-- They are out, and were served by an allocator equal to the present one. -/
  served : ∀ x ∈ held C, w.heap.Outstanding x.block ∧ x.lender = C.2.delegate ∧
    ∃ server, .served server x.block x.layout ∈ w.heap.events ∧ C.2.delegate == server

theorem Reachable.relending [EquivBEq A] {w : System A} (h : Reachable w) :
    ∀ C ∈ w.containers, w.Relending C := by
  intro C hC
  have hl := h.sound.lends
  obtain ⟨heap, rows, others, hs⟩ := h.sound.intact C hC
  have hheld : ∀ x ∈ held C, x ∈ w.containers.flatMap held ++ w.abandoned := fun x hx =>
    List.mem_append_left _ (List.mem_flatMap.mpr ⟨C, hC, hx⟩)
  have hbalanced := balanced_of_lends hl hs.wellFormed hheld
  refine ⟨fun candidate => ?_, hbalanced.blocks, ?_, fun x hx => ?_⟩
  · rw [hbalanced.length_held]
    exact C.2.setDelegate_eq candidate
  · have hnodup := hl.nodup
    rw [List.map_append] at hnodup
    have hsub : (held C).Sublist (w.containers.flatMap held) := by
      simpa using List.Sublist.flatMap (List.singleton_sublist.mpr hC) held
    exact hnodup.sublist ((hsub.map _).append (.refl _))
  · obtain ⟨hout, server, hserved, heq⟩ := hbalanced.lent x hx
    have hlender : x.lender = C.2.delegate := Table.lender_of_mem_loans hx
    exact ⟨hout, hlender, server, hserved, hlender ▸ heq⟩

/-- A container with five overflow nodes and a grown array keeps its allocator, and takes it once
more under another name. -/
theorem relending_crowded :
    (crowded.containers.map fun C =>
        ((C.2.setDelegate (.global "spare")).1.toOption, (C.2.setDelegate .plain).1.toOption,
          C.2.outstanding)) = [(none, some (), 6)] ∧
      ∀ C ∈ crowded.containers, crowded.Relending C :=
  ⟨by rfl, Reachable.relending reachable_crowded⟩

end System

end ArenaHash
