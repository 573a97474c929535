import ArenaHash.Proofs.System.Balance
import ArenaHash.Proofs.System.Redistribution
import ArenaHash.Proofs.System.Resizing
import ArenaHash.Proofs.System.Transcripts
import ArenaHash.Proofs.Table.Renewal

/-!
# Renewed containers

`renew` and `abandon` set the counters of a container instead of counting them down. In a reachable
system what comes about is a container just built, with the same builder, allocator and load factor,
up to what is left in its slots (`Pristine`): all nodes were in chains and the load factor is one
that such a container takes. Whatever is done afterwards, the two have the same transcript. `renew`
returns all that was held, `abandon` the bucket array only.
-/

namespace ArenaHash

variable {F : Profile} {A : Type}

namespace Keyed

variable {s : Table.Shape} {K V S : Type}

/-- A container just built with the builder and allocator of `c` and given its load factor. -/
def asNew (c : Keyed s K V A S) : Keyed s K V A S :=
  (new c.builder c.delegate).setMaxLoad c.table.growth.maxLoad

/-- The container with something else in its inline slots. -/
def withSlots (c : Keyed s K V A S) (slots : Vector (Slot (Node (K × V))) s.pool.capacity) :
    Keyed s K V A S := { c with table := c.table.withSlots slots }

end Keyed

variable [Allocator A]

/-- `c` differs from a container just built in what is left in its slots, and nothing that is done
later tells. -/
structure Pristine (c fresh : F.Container A) : Prop where
  state : ∃ slots, c = fresh.withSlots slots
  later : ∀ turns heap, transcript turns c heap = transcript turns fresh heap

theorem Keyed.pristine {c : F.Container A} (h : F.shape.Accepts c.table.growth.maxLoad)
    (slots : Vector (Slot (Node (F.Key × F.Value))) F.shape.pool.capacity) :
    Pristine (c.asNew.withSlots slots) c.asNew where
  state := ⟨slots, rfl⟩
  later turns heap :=
    have hsame : (c.asNew.withSlots slots).Resembles c.asNew :=
      ⟨Table.asNew_resembles h slots, rfl⟩
    (hsame.transcript_eq turns heap).symm

omit [Allocator A] in
theorem Action.loads_accepts {c : F.Container A} (h : F.shape.Accepts c.table.growth.maxLoad)
    (action : Action F A) : action.Loads F.shape.Accepts c := by
  have hcall : ∀ {ρ : Type} (call : Keyed.Call F.Key F.Value ρ),
      call.Loads F.shape.Accepts c := by
    intro ρ call
    cases call with
    | setMaxLoad maxLoad => exact Table.accepts_setMaxLoad h maxLoad
    | _ => trivial
  cases action with
  | map H call =>
    cases call with
    | common call => exact hcall call
    | _ => trivial
  | multimap H call =>
    cases call with
    | common call => exact hcall call
    | _ => trivial
  | _ => trivial

namespace System

open Profile.Container

/-- Every load factor is one that a container just built takes. -/
theorem Reachable.accepts {w : System A} (h : Reachable w) :
    ∀ C ∈ w.containers, C.1.shape.Accepts C.2.table.growth.maxLoad := by
  have hkept : ∀ C ∈ w.containers,
      C.2.table.Tuned ∧ C.1.shape.Accepts C.2.table.growth.maxLoad := by
    refine h.forall_containers (fun F builder delegate => ⟨Table.tuned_new delegate, .inl rfl⟩)
      (fun action hs hc => ?_) fun hs hr hc => ?_
    · exact ⟨action.run_tuned hs hc.1,
        action.run_maxLoad hs hc.1 hc.2 (action.loads_accepts hc.2)⟩
    · obtain ⟨t', ht, rfl⟩ := Keyed.table_copy_of_ok hr
      have hsame := hs.samePlan_copy ht
      exact ⟨hsame.tuned hc.1, hsame.growth ▸ hc.2⟩
  exact fun C hC => (hkept C hC).2

/-- The loan of the bucket array of a container, if it has grown. -/
def arrayLoans (C : Σ F : Profile, F.Container A) : List (Loan A) :=
  C.2.table.buckets.loans Table.Shape.headLayout C.2.delegate

/-- What becomes of a container that is renewed, or abandons its memory. -/
structure Renewal (w : System A) (C : Σ F : Profile, F.Container A) : Prop where
  /-- No entry, nothing handed out, empty inline heads, and the limit for these. -/
  fresh : C.2.asNew = ⟨⟨.new C.2.delegate, .new C.1.shape.buckets, 0,
    ⟨C.2.table.growth.maxLoad,
      Growth.limitFor C.2.table.growth.maxLoad C.1.shape.buckets⟩⟩, C.2.builder⟩
  renewed : Pristine (C.2.renew w.heap).1 C.2.asNew
  /-- Everything held is returned, node by node and then the array, and nothing else happens. -/
  repaid : (C.2.renew w.heap).2 = w.heap.repay (held C)
  outstanding : ∀ b, (C.2.renew w.heap).2.Outstanding b ↔
    w.heap.Outstanding b ∧ b ∉ (held C).map Loan.block
  abandoned : Pristine (C.2.abandon w.heap).1 C.2.asNew
  /-- The array is returned, and the nodes stay out. -/
  released : (C.2.abandon w.heap).2 = w.heap.repay (arrayLoans C)
  leaked : ∀ b, (C.2.abandon w.heap).2.Outstanding b ↔
    w.heap.Outstanding b ∧ b ∉ (arrayLoans C).map Loan.block
  leakedNodes : ∀ b ∈ nodeBlocks C, (C.2.abandon w.heap).2.Outstanding b

theorem Reachable.renewal {w : System A} (h : Reachable w) : ∀ C ∈ w.containers, w.Renewal C := by
  rintro ⟨F, c⟩ hC
  have ha := h.accepts _ hC
  obtain ⟨Cs, heap, lost⟩ := w
  obtain ⟨pre, post, rfl⟩ := List.append_of_mem hC
  obtain ⟨rows, hs⟩ := h.sound.focus
  obtain ⟨slots, hrenew⟩ := hs.renew_eq ha
  obtain ⟨slots', habandon⟩ := hs.abandon_eq ha
  have hrenewed : c.renew heap = (c.asNew.withSlots slots, heap.repay (held ⟨F, c⟩)) := by
    simp only [Keyed.renew, hrenew]
    rfl
  have habandoned : c.abandon heap =
      (c.asNew.withSlots slots', heap.repay (arrayLoans ⟨F, c⟩)) := by
    simp only [Keyed.abandon, habandon]
    rfl
  have hl := hs.lends
  have hl' : heap.Lends (arrayLoans ⟨F, c⟩ ++
      (c.table.nodes.loans c.table.refs ++ ((pre ++ post).flatMap held ++ lost))) := by
    apply hl.perm
    rw [Table.loans, List.append_assoc]
    exact List.perm_append_comm_assoc _ _ _
  refine ⟨congrArg (fun t => (⟨t, c.builder⟩ : F.Container A)) (Table.asNew_eq ha), ?_,
    congrArg Prod.snd hrenewed, ?_, ?_, congrArg Prod.snd habandoned, ?_, ?_⟩
  · rw [hrenewed]
    exact Keyed.pristine ha slots
  · rw [hrenewed]
    exact hl.outstanding_repay
  · rw [habandoned]
    exact Keyed.pristine ha slots'
  · rw [habandoned]
    exact hl'.outstanding_repay
  · intro b hb
    have hnode : b ∈ (c.table.nodes.loans c.table.refs).map Loan.block := by
      simpa [Pool.loans, nodeBlocks, Function.comp_def] using hb
    rw [habandoned]
    refine (hl'.repay.outstanding_iff b).mpr ?_
    rw [List.map_append]
    exact List.mem_append_left _ hnode

/-- Five overflow nodes and the array go back, or the array alone. -/
theorem renewal_crowded :
    (crowded.containers.map fun C => ((held C).length, (C.2.renew crowded.heap).2.events.length,
        (C.2.abandon crowded.heap).2.events.length, crowded.heap.events.length)) =
        [(6, 12, 7, 6)] ∧
      ∀ C ∈ crowded.containers, crowded.Renewal C :=
  ⟨by decide +kernel, Reachable.renewal reachable_crowded⟩

end System

end ArenaHash
