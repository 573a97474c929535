import ArenaHash.Proofs.Container.Plans
import ArenaHash.Proofs.Table.Inline

/-!
# Calls that stay within inline memory

A call is `Frugal` if it adds an entry only where one more fits into the inline slots and buckets,
and leaves the load factor at the default one. Where nothing has been requested yet, a frugal call
requests nothing, whatever the hashes are: at most it returns blocks, and then there are none.
-/

namespace ArenaHash

namespace Table

variable {s : Shape} {T A : Type} [Allocator A] {t t' : Table s T A} {heap : Heap A}
  {rows : Rows T} {others : List (Loan A)} {hasher : Ref → T → UInt64}

/-- Before the first request a table is as it was built. -/
theorem Stores.asBuilt (h : t.Stores heap rows [] others) (hquiet : heap.events = [])
    (hload : t.growth.maxLoad = Growth.defaultLoad) : t.AsBuilt where
  inline := (h.inline_of_loans (List.append_eq_nil_iff.mp (h.lends.eq_nil_of_quiet hquiet)).1).2.1
  maxLoad := hload

theorem maxLoad_renew (t : Table s T A) (heap : Heap A) :
    (t.renew heap).1.growth.maxLoad = t.growth.maxLoad := by
  unfold renew
  simp only [Growth.maxLoad_retarget, shrink, (Releases.clear t heap).growth]

omit [Allocator A] in
theorem maxLoad_abandon (t : Table s T A) (heap : Heap A) :
    (t.abandon heap).1.growth.maxLoad = t.growth.maxLoad := by
  unfold abandon
  simp only [Growth.maxLoad_retarget, shrink]

theorem Tuned.maxLoad_roomed (ht : t.Tuned) (h : t.Stores heap rows [] others)
    (hr : t.Roomed hasher heap t') : t'.growth.maxLoad = t.growth.maxLoad := by
  rcases hr with hsame | hsame
  · rw [hsame.growth]
  · rw [hsame.growth]
    have hroom := ht.room h hasher
    generalize t.makeRoom hasher heap = result at hroom
    cases hroom with
    | enough | refused => rfl
    | grown due redistributed =>
      rw [redistributed.growth, Growth.maxLoad_retarget]

end Table

variable {s : Table.Shape} {K V A S : Type} [BEq K] [Allocator A] {ρ : Type}

/-- A load factor that the call sets has a property. -/
def Keyed.Call.Loads (P : Binary32 → Prop) (c : Keyed s K V A S) : Keyed.Call K V ρ → Prop
  | .setMaxLoad maxLoad => P (c.setMaxLoad maxLoad).table.growth.maxLoad
  | _ => True

def Map.Call.Loads (P : Binary32 → Prop) (m : Map s K V A S) : Map.Call K V ρ → Prop
  | .common call => call.Loads P m
  | _ => True

def Multimap.Call.Loads (P : Binary32 → Prop) (m : Multimap s K V A S) :
    Multimap.Call K V ρ → Prop
  | .common call => call.Loads P m
  | _ => True

def Keyed.Call.Frugal (c : Keyed s K V A S) : Keyed.Call K V ρ → Prop
  | .setMaxLoad maxLoad => (c.setMaxLoad maxLoad).table.growth.maxLoad = Growth.defaultLoad
  | _ => True

def Map.Call.Frugal (H : Hashing S K) (m : Map s K V A S) : Map.Call K V ρ → Prop
  | .insert k _ | .insertIfNew k _ _ | .replace k _ => m.contains H k = false → m.size < s.room
  | .count _ => True
  | .common call => call.Frugal m

def Multimap.Call.Frugal (m : Multimap s K V A S) : Multimap.Call K V ρ → Prop
  | .insert _ _ => m.size < s.room
  | .count _ | .equalRun _ | .eraseAll _ => True
  | .common call => call.Frugal m

namespace Keyed

variable {c : Keyed s K V A S} {heap : Heap A} {rows : Rows (K × V)} {others : List (Loan A)}
  (H : Hashing S K) (h : c.table.Stores heap rows [] others) (ht : c.table.Tuned)
  (hb : c.table.AsBuilt) (hbuckets : s.buckets ≤ 2 ^ 24)

section

include h ht hb hbuckets

omit [BEq K] in
theorem heap_add_inline (hsize : c.size < s.room) (k : K) (v : V) :
    (Map.add H c k v heap).2.2 = heap :=
  h.heap_insertFront_inline ht hb hbuckets hsize _ _

theorem map_takesBack (call : Map.Call K V ρ) (hc : call.Frugal H c) :
    heap.TakesBack (Map.perform H c heap call).2.2 := by
  have hadd (k : K) (v : V) (hfrugal : c.contains H k = false → c.size < s.room) :
      c.contains H k = false → (Map.add H c k v heap).2.2 = heap := fun hmiss =>
    heap_add_inline H h ht hb hbuckets (hfrugal hmiss) k v
  cases call with
  | insert k v =>
    have hheap := heap_insert H h (hadd k v hc)
    simp only [Map.perform, hheap]
    exact .refl
  | insertIfNew k v g =>
    rw [heap_insertIfNew_call H h (hadd k v hc)]
    exact .refl
  | replace k v =>
    have hheap := heap_replace H h (hadd k v hc)
    simp only [Map.perform, hheap]
    exact .refl
  | count k => exact .refl
  | common call => exact perform_takesBack H c heap call

theorem multimap_takesBack (call : Multimap.Call K V ρ) (hc : call.Frugal c) :
    heap.TakesBack (Multimap.perform H c heap call).2.2 := by
  cases call with
  | insert k v =>
    have hheap : (Multimap.perform H c heap (.insert k v)).2.2 = heap :=
      h.heap_insertBeside_inline ht hb hbuckets hc _ _ _
    rw [hheap]
    exact .refl
  | count k | equalRun k => exact .refl
  | eraseAll k => exact (Table.Releases.eraseUpTo _ _ _ _ heap).returns
  | common call => exact perform_takesBack H c heap call

end

/-! ## The load factor -/

section

variable {P : Binary32 → Prop} (hload : P c.table.growth.maxLoad)
include hload

theorem perform_maxLoad (heap : Heap A) (call : Call K V ρ) (hc : call.Loads P c) :
    P (perform H c heap call).2.1.table.growth.maxLoad := by
  cases hr : call.replans with
  | false =>
    rw [(perform_releases H c heap hr).growth]
    exact hload
  | true =>
    cases call with
    | renew => exact (c.table.maxLoad_renew heap).symm ▸ hload
    | abandon => exact (c.table.maxLoad_abandon heap).symm ▸ hload
    | setMaxLoad maxLoad => exact hc
    | _ => cases hr

include h ht

theorem map_maxLoad (call : Map.Call K V ρ) (hc : call.Loads P c) :
    P (Map.perform H c heap call).2.1.table.growth.maxLoad := by
  cases call with
  | insert k v => exact (ht.maxLoad_roomed h (roomed_insert H c heap k v)).symm ▸ hload
  | insertIfNew k v g =>
    exact (ht.maxLoad_roomed h (roomed_insertIfNew_call H c heap k v g)).symm ▸ hload
  | replace k v => exact (ht.maxLoad_roomed h (roomed_replace H c heap k v)).symm ▸ hload
  | count k => exact hload
  | common call => exact perform_maxLoad H hload heap call hc

theorem multimap_maxLoad (call : Multimap.Call K V ρ) (hc : call.Loads P c) :
    P (Multimap.perform H c heap call).2.1.table.growth.maxLoad := by
  cases call with
  | insert k v => exact (ht.maxLoad_roomed h (roomed_insertBeside H c heap k v)).symm ▸ hload
  | count k | equalRun k => exact hload
  | eraseAll k =>
    have hsame := (Table.Releases.eraseUpTo (H.key c.builder k) (hasKey k) c.table.size c.table
      heap).growth
    exact hsame.symm ▸ hload
  | common call => exact perform_maxLoad H hload heap call hc

end

variable {H}

omit [Allocator A] in
theorem loads_of_frugal_map {call : Map.Call K V ρ} (hc : call.Frugal H c) :
    call.Loads (· = Growth.defaultLoad) c := by
  cases call with
  | common call => exact hc
  | _ => trivial

omit [BEq K] [Allocator A] in
theorem loads_of_frugal_multimap {call : Multimap.Call K V ρ} (hc : call.Frugal c) :
    call.Loads (· = Growth.defaultLoad) c := by
  cases call with
  | common call => exact hc
  | _ => trivial

end Keyed

end ArenaHash
