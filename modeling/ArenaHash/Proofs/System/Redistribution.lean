import ArenaHash.Proofs.System.Safety
import ArenaHash.Proofs.Table.Relinking

/-!
# Growth in a system

A container of a reachable system may grow to any count of two or more buckets, under any hash of
its entries. Either it is granted the array, and its nodes are redistributed, or nothing has
changed. Chains are sound again in both cases, and the links alone suffice for it.
-/

namespace ArenaHash.System

variable {A : Type} [Allocator A] {w : System A}

theorem Reachable.redistribution (h : Reachable w) :
    ∀ C ∈ w.containers, ∀ (hasher : Ref → C.1.Key × C.1.Value → UInt64) (count : Nat),
      2 ≤ count →
        C.2.table.Redistribution hasher count w.heap
            (C.2.table.redistribute count hasher w.heap) ∧
          (C.2.table.redistribute count hasher w.heap).2.1.WellFormed ∧
          C.2.table.relink count hasher w.heap = C.2.table.redistribute count hasher w.heap := by
  rintro ⟨F, c⟩ hC hasher count h2
  obtain ⟨Cs, heap, lost⟩ := w
  obtain ⟨pre, post, rfl⟩ := List.append_of_mem hC
  obtain ⟨rows, hs⟩ := h.sound.focus
  refine ⟨hs.redistribute_cases hasher h2, ?_, hs.relink_eq hasher count heap⟩
  show (c.table.redistribute count hasher heap).2.1.WellFormed
  rcases hr : c.table.redistribute count hasher heap with ⟨e | _, t', heap'⟩
  · obtain ⟨rfl, -⟩ := hs.redistribute_error hr
    exact hs.wellFormed
  · exact (hs.redistribute_ok h2 hr).1.wellFormed

/-- Six entries under three hashes, in seven buckets of a grown array. -/
def crowded : System Lender :=
  let items : List (Item oneSlot) := [1, 6, 1, 2, 6, 1].map fun k : Nat =>
    ⟨.beside, .ofFun fun _ k => .ofNat k, k, (0 : Nat)⟩
  let filled := (Action.extend items).run (.new () .plain) { serves := fun _ _ _ => true }
  ⟨[⟨oneSlot, filled.1⟩], filled.2, []⟩

theorem reachable_crowded : Reachable crowded := by
  have h0 : Reachable ⟨[⟨oneSlot, .new () Lender.plain⟩], { serves := fun _ _ _ => true }, []⟩ :=
    (Reachable.start _).step (.build oneSlot () Lender.plain)
  exact h0.act (.extend _)

/-- The nodes of `crowded` go to two buckets of a new array. -/
theorem redistribution_crowded :
    (crowded.containers.map fun C => (List.range C.2.table.bucketCount).map C.2.table.chain) =
        [[[], [.inline 0, .overflow 5, .overflow 1], [.overflow 3], [], [], [],
          [.overflow 0, .overflow 4]]] ∧
      (crowded.containers.map fun C => (List.range 2).map
          (C.2.table.redistribute 2 (fun _ _ => 0) crowded.heap).2.1.chain) =
        [[[.overflow 3, .overflow 0, .overflow 4], [.inline 0, .overflow 5, .overflow 1]]] ∧
      ∀ C ∈ crowded.containers,
        C.2.table.Redistribution (fun _ _ => 0) 2 crowded.heap
            (C.2.table.redistribute 2 (fun _ _ => 0) crowded.heap) ∧
          (C.2.table.redistribute 2 (fun _ _ => 0) crowded.heap).2.1.WellFormed ∧
          C.2.table.relink 2 (fun _ _ => 0) crowded.heap =
            C.2.table.redistribute 2 (fun _ _ => 0) crowded.heap :=
  ⟨by decide +kernel, by decide +kernel, fun C hC =>
    Reachable.redistribution reachable_crowded C hC (fun _ _ => 0) 2 (by decide)⟩

end ArenaHash.System
