import ArenaHash.Proofs.Container.Inline
import ArenaHash.Proofs.Container.Resizing
import ArenaHash.Proofs.System.Safety

/-!
# Bucket counts in a system

Every container of a reachable system is coherent, whatever was done to it and whatever was refused,
and an action changes its bucket count in no other way than its `Resizing` allows. All other steps
leave a container as it is, replace it by a copy or drop it; a copy has the bucket count of its
source.
-/

namespace ArenaHash

variable {F : Profile} {A : Type} [Allocator A]

/-! ## Items -/

section

variable {c : F.Container A} {heap : Heap A} {rows : Rows (F.Key × F.Value)}
  {others : List (Loan A)}

theorem Item.insert_roomed (item : Item F) (c : F.Container A) (heap : Heap A) :
    c.table.Roomed (c.hasher item.hashing) heap (Item.insert c item heap).2.1.table := by
  unfold Item.insert
  cases item.manner with
  | overwrite => exact Keyed.roomed_insert _ c heap _ _
  | keep => exact Keyed.roomed_insertIfNew _ c heap _ _
  | beside => exact Keyed.roomed_insertBeside _ c heap _ _

theorem insertMany_grows (items : List (Item F)) (h : c.table.Stores heap rows [] others)
    (ht : c.table.Tuned) :
    (Keyed.insertMany Item.insert c items heap).2.1.table.Tuned ∧
      Resizing.grow.Allows c.table (Keyed.insertMany Item.insert c items heap).2.1.table := by
  refine insertMany_invariant
    (P := fun c' : F.Container A => c'.table.Tuned ∧ Resizing.grow.Allows c.table c'.table)
    ?_ items h ⟨ht, (Table.SamePlan.refl _).allows_grow⟩
  rintro c' heap' rows' item h' ⟨ht', hgrows⟩
  have hroomed := item.insert_roomed c' heap'
  exact ⟨ht'.roomed h' hroomed, Table.allows_grow_trans hgrows (ht'.allows_of_roomed h' hroomed)⟩

theorem insertMany_maxLoad (items : List (Item F)) (h : c.table.Stores heap rows [] others)
    (ht : c.table.Tuned) :
    (Keyed.insertMany Item.insert c items heap).2.1.table.growth.maxLoad =
      c.table.growth.maxLoad := by
  refine (insertMany_invariant (P := fun c' : F.Container A => c'.table.Tuned ∧
    c'.table.growth.maxLoad = c.table.growth.maxLoad) ?_ items h ⟨ht, rfl⟩).2
  rintro c' heap' rows' item h' ⟨ht', hload⟩
  have hroomed := item.insert_roomed c' heap'
  exact ⟨ht'.roomed h' hroomed, (ht'.maxLoad_roomed h' hroomed).trans hload⟩

/-! ## Actions -/

def Action.resizing : Action F A → Resizing
  | map _ call => call.resizing
  | multimap _ call => call.resizing
  | extend _ => .grow
  | pop _ | setDelegate _ => .keep

/-- A load factor that the action sets has a property. -/
def Action.Loads (P : Binary32 → Prop) (c : F.Container A) : Action F A → Prop
  | map _ call => call.Loads P c
  | multimap _ call => call.Loads P c
  | extend _ | pop _ | setDelegate _ => True

variable (h : c.table.Stores heap rows [] others) (ht : c.table.Tuned)
include h ht

theorem Action.run_tuned (action : Action F A) : (action.run c heap).1.table.Tuned := by
  cases action with
  | map H call => exact Keyed.tuned_map h ht H call
  | multimap H call => exact Keyed.tuned_multimap h ht H call
  | extend items => exact (insertMany_grows items h ht).1
  | pop position => exact (Table.Releases.pop _ position heap).tuned ht
  | setDelegate delegate => exact (Table.SamePlan.setDelegate _ delegate).tuned ht

theorem Action.run_allows (action : Action F A) :
    action.resizing.Allows c.table (action.run c heap).1.table := by
  cases action with
  | map H call => exact Keyed.map_allows H h ht call
  | multimap H call => exact Keyed.multimap_allows H h ht call
  | extend items => exact (insertMany_grows items h ht).2
  | pop position => exact (Table.Releases.pop _ position heap).allows_keep
  | setDelegate delegate => exact (Table.SamePlan.setDelegate _ delegate).allows_keep

theorem Action.run_maxLoad {P : Binary32 → Prop} (hload : P c.table.growth.maxLoad)
    (action : Action F A) (haction : action.Loads P c) :
    P (action.run c heap).1.table.growth.maxLoad := by
  cases action with
  | map H call => exact Keyed.map_maxLoad H h ht hload call haction
  | multimap H call => exact Keyed.multimap_maxLoad H h ht hload call haction
  | extend items => exact (insertMany_maxLoad items h ht).symm ▸ hload
  | pop position => exact (Table.Releases.pop _ position heap).growth.symm ▸ hload
  | setDelegate delegate => exact (Table.SamePlan.setDelegate _ delegate).growth.symm ▸ hload

end

namespace System

variable {w w' : System A}

/-- A copy has the bucket count and the plan of its source. -/
theorem Sound.samePlan_copy {Cs : List (Σ F : Profile, F.Container A)} {heap heap' : Heap A}
    {lost : List (Loan A)} {c d : F.Container A} (hw : Sound ⟨Cs, heap, lost⟩)
    (hc : ⟨F, c⟩ ∈ Cs) (hr : c.copy heap = (.ok d, heap')) : c.table.SamePlan d.table := by
  obtain ⟨pre, post, rfl⟩ := List.append_of_mem hc
  obtain ⟨rows, hs⟩ := hw.focus
  obtain ⟨t', ht, rfl⟩ := Keyed.table_copy_of_ok hr
  exact hs.samePlan_copy ht

theorem Reachable.coherent (h : Reachable w) : ∀ C ∈ w.containers, C.2.table.Coherent := by
  refine h.forall_containers (fun F builder delegate => Table.coherent_new delegate)
    (fun action hs hc => ?_) fun hs hr hc => ?_
  · exact hc.resized (action.run_allows hs hc.tuned) (action.run_tuned hs hc.tuned)
  · obtain ⟨t', ht, rfl⟩ := Keyed.table_copy_of_ok hr
    have hsame := hs.samePlan_copy ht
    exact hc.resized hsame.allows_keep (hsame.tuned hc.tuned)

/-- Bucket array and growth plan of every container agree, and its bucket count changes only in
insertions, to a larger one of the primes, and where it goes back to the inline array. -/
theorem Reachable.growth_coherent (h : Reachable w) :
    ∀ C ∈ w.containers, C.2.table.Coherent ∧
      (∀ action : Action C.1 A,
        action.resizing.Allows C.2.table (action.run C.2 w.heap).1.table) ∧
      ∀ d heap', C.2.copy w.heap = (.ok d, heap') →
        Resizing.keep.Allows C.2.table d.table := by
  rintro ⟨F, c⟩ hC
  obtain ⟨Cs, heap, lost⟩ := w
  refine ⟨h.coherent _ hC, fun action => ?_, fun d heap' hr => ?_⟩
  · obtain ⟨pre, post, rfl⟩ := List.append_of_mem hC
    obtain ⟨rows, hs⟩ := h.sound.focus
    exact action.run_allows hs (h.coherent _ hC).tuned
  · exact (h.sound.samePlan_copy hC hr).allows_keep

/-- Four keys for three buckets: a larger array is served, and then a node is refused. -/
def outgrown : System Lender :=
  let items : List (Item oneSlot) := [0, 1, 2, 3].map fun k : Nat =>
    ⟨.overwrite, .ofFun fun _ k => .ofNat k, k, (0 : Nat)⟩
  let heap : Heap Lender := { serves := fun events _ _ => events.length < 3 }
  let grown := (Action.extend items).run (.new () .plain) heap
  ⟨[⟨oneSlot, grown.1⟩], grown.2, []⟩

theorem reachable_outgrown : Reachable outgrown := by
  have h0 : Reachable ⟨[⟨oneSlot, .new () Lender.plain⟩],
      { serves := fun events _ _ => events.length < 3 }, []⟩ :=
    (Reachable.start _).step (.build oneSlot () Lender.plain)
  exact h0.act (.extend _)

theorem growth_coherent_outgrown :
    outgrown.containers.map (fun C => (C.2.size, C.2.table.bucketCount, C.2.table.growth.limit)) =
        [(3, 7, 7)] ∧
      ∀ C ∈ outgrown.containers, C.2.table.Coherent ∧
        (∀ action : Action C.1 Lender,
          action.resizing.Allows C.2.table (action.run C.2 outgrown.heap).1.table) ∧
        ∀ d heap', C.2.copy outgrown.heap = (.ok d, heap') →
          Resizing.keep.Allows C.2.table d.table :=
  ⟨by decide +kernel, Reachable.growth_coherent reachable_outgrown⟩

end System

end ArenaHash
