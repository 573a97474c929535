import ArenaHash.Proofs.System.Safety
import ArenaHash.Proofs.Table.Plans

/-!
# Copies in a system

What it costs to copy a container of a reachable system, and what is left of a copy that fails. The
requests follow from size and bucket count of the source alone (`Table.copyRequests`), however its
entries are spread over inline slots and overflow memory.
-/

namespace ArenaHash.System

variable {A : Type} [Allocator A]

structure CopyCost {F : Profile} (w : System A) (c : F.Container A) : Prop where
  copying : c.table.Copying w.heap ((c.copy w.heap).1.map Keyed.table, (c.copy w.heap).2)
  /-- A copy has no more overflow nodes than the source. -/
  spared : ∀ d later, c.copy w.heap = (.ok d, later) →
    d.table.nodes.overflowLive ≤ c.table.nodes.overflowLive
  /-- After a failed copy the containers are those of before, and so are the blocks on loan. -/
  failed : ∀ e later, c.copy w.heap = (.error e, later) →
    Reachable ⟨w.containers, later, w.abandoned⟩ ∧
      ∀ b, later.Outstanding b ↔ w.heap.Outstanding b
  /-- Entries that fit into inline memory are copied without a request. -/
  fitting : c.size ≤ F.shape.capacity → c.table.buckets.isGrown = false →
    ∃ d, c.copy w.heap = (.ok d, w.heap) ∧ d.table.usesOverflow = false

theorem Reachable.copy_cost {w : System A} (h : Reachable w) :
    ∀ C ∈ w.containers, w.CopyCost C.2 := by
  rintro ⟨F, c⟩ hC
  obtain ⟨Cs, heap, lost⟩ := w
  obtain ⟨pre, post, rfl⟩ := List.append_of_mem hC
  obtain ⟨rows, hs⟩ := h.sound.focus
  refine ⟨?_, ?_, ?_, ?_⟩
  · rw [Keyed.table_copy]
    exact hs.copying
  · intro d later hr
    obtain ⟨t', ht, rfl⟩ := Keyed.table_copy_of_ok hr
    obtain ⟨-, -, -, -, -, hlive, -⟩ := hs.copy_ok ht
    exact hlive.trans_le hs.size_sub_le
  · intro e later hr
    have hafter := h.step (.copyFailed hC hr)
    exact ⟨hafter, fun b =>
      (hafter.sound.lends.outstanding_iff b).trans (h.sound.lends.outstanding_iff b).symm⟩
  · intro hsize hinline
    obtain ⟨t', ht⟩ := hs.copy_fits hsize hinline
    obtain ⟨-, -, -, -, -, hlive, -⟩ := hs.copy_ok ht
    have hnone : t'.nodes.overflowLive = 0 := hlive.trans (Nat.sub_eq_zero_of_le hsize)
    have hgrown := (hs.samePlan_copy ht).isGrown.trans hinline
    exact ⟨{ c with table := t' }, by simp only [Keyed.copy, ht],
      by simp [Table.usesOverflow, hnone, hgrown]⟩

def firstKeys (n : Nat) : List (Item oneSlot) :=
  (List.range n).map fun k : Nat => ⟨.overwrite, .ofFun fun _ k => .ofNat k, k, (0 : Nat)⟩

def eraseZero : Action oneSlot Lender :=
  .map (.ofFun fun _ k => .ofNat k) (.common (.erase (0 : Nat)))

/-- A container with four entries in a grown array, and one whose only entry is in an overflow
node. The eighth request is refused. -/
def rationed : System Lender :=
  let heap : Heap Lender := { serves := fun events _ _ => events.length != 7 }
  let pair := (Action.extend (firstKeys 2)).run (.new () .plain) heap
  let single := eraseZero.run pair.1 pair.2
  let four := (Action.extend (firstKeys 4)).run (.new () .plain) single.2
  ⟨[⟨oneSlot, four.1⟩, ⟨oneSlot, single.1⟩], four.2, []⟩

theorem reachable_rationed : Reachable rationed := by
  have h0 : Reachable ⟨[⟨oneSlot, .new () Lender.plain⟩],
      { serves := fun events _ _ => events.length != 7 }, []⟩ :=
    (Reachable.start _).step (.build oneSlot () Lender.plain)
  have h1 := (h0.act (.extend (firstKeys 2))).act eraseZero
  have h2 := h1.step (.build oneSlot () Lender.plain)
  exact h2.step (@Step.act Lender _ [] [_] _ _ _ _ (.extend (firstKeys 4)))

/-- The second of three nodes is refused, so the first one and the array go back; the other
container is copied into inline memory. -/
theorem copy_cost_rationed :
    rationed.containers.map (fun C => (C.2.table.buckets.isGrown, C.2.table.nodes.overflowLive,
        C.2.table.copyRequests.map Layout.size)) =
        [(true, 3, [128, 32, 32, 32]), (false, 1, [])] ∧
      rationed.containers.map (fun C => ((C.2.copy rationed.heap).1.toOption.map fun d =>
          d.table.nodes.overflowLive, (C.2.copy rationed.heap).2.events.length)) =
        [(none, 10), (some 0, 5)] ∧
      ∀ C ∈ rationed.containers, rationed.CopyCost C.2 :=
  ⟨by decide +kernel, by decide +kernel, Reachable.copy_cost reachable_rationed⟩

end ArenaHash.System
