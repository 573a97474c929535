import ArenaHash.Proofs.Container.Rejections
import ArenaHash.Proofs.System.Redistribution
import ArenaHash.Proofs.Table.Unlinking

/-!
# Filters in a system

Whatever a filter does with the entries it sees, a container of a reachable system loses exactly the
nodes that are rejected, and the others stay in their chains with the values the filter left
(`Table.Filtered`). In a map under one hash function that is what removing the rejected keys one by
one comes to, as far as nodes go (`Map.OneByOne`). The links alone suffice for it, and for removing
everything (`Reachable.by_links`).
-/

namespace ArenaHash

open Keyed (keepEntry)

namespace Map

variable {s : Table.Shape} {K V A S σ : Type} [BEq K] [Allocator A] {f : S → K → UInt64}
  {m : Map s K V A S} {heap : Heap A} {keep : σ → K × V → Bool × (K × V) × σ} {state : σ}
  {verdict : Ref → Option (K × V)} {out : σ × Table s (K × V) A × Heap A}

/-- The keys of the rejected entries, in walking order. -/
def rejectedKeys (m : Map s K V A S) (verdict : Ref → Option (K × V)) : List K :=
  ((m.table.refs.filter fun q => (verdict q).isNone).filterMap m.table.entryAt?).map Prod.fst

/-- `m'` and `heap'` are left when the rejected keys are removed from `m` one by one, `t'` and
`heap''` when the filter does it at once: chains and returns are the same, and in `m'` the entries
are as they were. -/
structure OneByOne (m : Map s K V A S) (heap : Heap A) (qs : List Ref) (m' : Map s K V A S)
    (heap' : Heap A) (t' : Table s (K × V) A) (heap'' : Heap A) : Prop where
  chain : ∀ i, m'.table.chain i = t'.chain i
  contentAt : ∀ q ∈ m'.table.refs, m'.table.contentAt q = m.table.contentAt q
  returned : m.table.Returned heap qs m'.table heap'
  heap : heap' = heap''

theorem Reached.oneByOne [EquivBEq K] (hf : Hashing.Faithful f) (h : Reached f m heap)
    (hout : m.table.Filtered heap keep state verdict out) :
    m.OneByOne heap (m.table.refs.filter fun q => (verdict q).isNone)
      (eraseEach (.ofFun f) m heap (m.rejectedKeys verdict)).1
      (eraseEach (.ofFun f) m heap (m.rejectedKeys verdict)).2 out.2.1 out.2.2 := by
  have hmodels := h.models hf
  obtain ⟨rows, others, hp⟩ := hmodels.placed
  have hs := hp.stores
  -- The rejected cells, in walking order.
  generalize hds : (rows.all m.table.bucketCount).filter (fun c => (verdict c.ref).isNone) = ds
  have hmem : ∀ d ∈ ds, d ∈ rows.all m.table.bucketCount := fun d hd => by
    rw [← hds] at hd
    exact List.mem_of_mem_filter hd
  have hrefs : m.table.refs.filter (fun q => (verdict q).isNone) = ds.map Cell.ref := by
    rw [hs.refs_eq, List.filter_map, ← hds]
    rfl
  have hkeys : m.rejectedKeys verdict = ds.map fun d => d.entry.1 := by
    rw [rejectedKeys, hrefs, hs.entries_eq fun d hd => List.mem_append_left _ (hmem d hd),
      List.map_map]
    rfl
  have hn : (ds.map Cell.ref).Nodup := by
    rw [← hrefs, hs.refs_eq]
    exact (by simpa using hs.nodup : ((rows.all m.table.bucketCount).map Cell.ref).Nodup).filter _
  have hthin := thinned_eraseEach hf hp hmodels.unique hmem hn
  have hkept : ∀ i, ∀ c ∈ rows i, c.ref ∉ ds.map Cell.ref ↔ (verdict c.ref).isSome := by
    intro i c hc
    rw [← hrefs, List.mem_filter, hs.refs_eq, ← Option.not_isNone]
    simp [List.mem_map_of_mem (hs.mem_all hc), Option.isSome_iff_ne_none]
  rw [hrefs, hkeys]
  refine ⟨fun i => ?_, fun q hq => ?_, hthin.returned, ?_⟩
  · rw [hout.chain, hthin.placed.stores.chain_eq, hs.chain_eq, List.filter_map]
    refine congrArg _ (List.filter_congr fun c hc => ?_)
    rw [Bool.eq_iff_iff, decide_eq_true_iff]
    exact hkept i c hc
  · rw [hthin.placed.stores.refs_eq] at hq
    obtain ⟨c, hc, rfl⟩ := List.mem_map.mp hq
    obtain ⟨i, -, hc⟩ := Rows.mem_all _ |>.mp hc
    rw [hthin.placed.stores.contentAt_eq hc, hs.contentAt_eq (List.mem_of_mem_filter hc)]
  · rw [hthin.returned.heap, hout.returned.heap, hrefs]

end Map

namespace System

variable {A : Type} [Allocator A]

theorem Reachable.by_links {w : System A} (h : Reachable w) :
    ∀ C ∈ w.containers, C.2.table.clearByLinks w.heap = C.2.table.clear w.heap ∧
      ∀ {σ : Type} (keep : σ → C.1.Key × C.1.Value → Bool × (C.1.Key × C.1.Value) × σ) (state : σ),
        C.2.table.filterByLinks keep state w.heap = C.2.table.filter keep state w.heap := by
  rintro ⟨F, c⟩ hC
  obtain ⟨Cs, heap, lost⟩ := w
  obtain ⟨pre, post, rfl⟩ := List.append_of_mem hC
  obtain ⟨rows, hs⟩ := h.sound.focus
  exact ⟨hs.clearByLinks_eq, fun keep state => hs.filterByLinks_eq keep state⟩

theorem filters_exact :
    (∀ w : System A, Reachable w → ∀ C ∈ w.containers, ∀ (σ : Type)
      (keep : σ → C.1.Key → C.1.Value → Bool × C.1.Value × σ) (state : σ),
        C.2.walked = C.2.toList ∧ (C.2.filter keep state w.heap).2.1.table.WellFormed ∧
        C.2.table.filterByLinks (keepEntry keep) state w.heap =
          C.2.table.filter (keepEntry keep) state w.heap ∧
        ∃ verdict, C.2.table.Filtered w.heap (keepEntry keep) state verdict
          ((C.2.filter keep state w.heap).1, (C.2.filter keep state w.heap).2.1.table,
            (C.2.filter keep state w.heap).2.2)) ∧
    ∀ (s : Table.Shape) (K V S : Type) [BEq K] [EquivBEq K] (f : S → K → UInt64),
      Hashing.Faithful f → ∀ (m : Map s K V A S) (heap : Heap A), Map.Reached f m heap →
        ∀ (σ : Type) (keep : σ → K → V → Bool × V × σ) (state : σ), ∃ verdict,
          m.table.Filtered heap (keepEntry keep) state verdict
            ((m.filter keep state heap).1, (m.filter keep state heap).2.1.table,
              (m.filter keep state heap).2.2) ∧
          m.OneByOne heap (m.table.refs.filter fun q => (verdict q).isNone)
            (Map.eraseEach (.ofFun f) m heap (m.rejectedKeys verdict)).1
            (Map.eraseEach (.ofFun f) m heap (m.rejectedKeys verdict)).2
            (m.filter keep state heap).2.1.table (m.filter keep state heap).2.2 := by
  refine ⟨?_, ?_⟩
  · rintro w h ⟨F, c⟩ hC σ keep state
    have hlinks := (h.by_links _ hC).2 (keepEntry keep) state
    obtain ⟨Cs, heap, lost⟩ := w
    obtain ⟨pre, post, rfl⟩ := List.append_of_mem hC
    obtain ⟨rows, hs⟩ := h.sound.focus
    obtain ⟨t', heap', hrun, hs', -⟩ := hs.filter (keepEntry keep) state
    refine ⟨Keyed.walked_eq hs, ?_, hlinks, hs.filtered (keepEntry keep) state⟩
    simp only [Keyed.filter_eq, hrun]
    exact hs'.wellFormed
  · intro s K V S _ _ f hf m heap h σ keep state
    obtain ⟨rows, others, hp⟩ := (h.models hf).placed
    obtain ⟨verdict, hout⟩ := hp.stores.filtered (keepEntry keep) state
    exact ⟨verdict, hout, h.oneByOne hf hout⟩

/-- Every other entry goes: of six in a system under several hashes, and of three in a map. -/
theorem filters_exact_alternating :
    let heap : Heap Lender := { serves := fun _ _ _ => true }
    let m : Map .lax Nat Char Lender Unit := .new () .plain
    let (_, m, heap) := Map.perform (.ofFun hashByParity) m heap (.insert 1 'a')
    let (_, m, heap) := Map.perform (.ofFun hashByParity) m heap (.insert 3 'b')
    let (_, m, heap) := Map.perform (.ofFun hashByParity) m heap (.insert 5 'c')
    (crowded.containers.map fun C => (List.range C.2.table.bucketCount).map
        (C.2.filter (fun n _ v => (n % 2 == 1, v, n + 1)) 0 crowded.heap).2.1.table.chain) =
        [[[], [.overflow 5], [.overflow 3], [], [], [], [.overflow 4]]] ∧
      (∀ C ∈ crowded.containers, ∃ verdict,
        C.2.table.Filtered crowded.heap (keepEntry fun n _ v => (n % 2 == 1, v, n + 1)) 0 verdict
          ((C.2.filter (fun n _ v => (n % 2 == 1, v, n + 1)) 0 crowded.heap).1,
            (C.2.filter (fun n _ v => (n % 2 == 1, v, n + 1)) 0 crowded.heap).2.1.table,
            (C.2.filter (fun n _ v => (n % 2 == 1, v, n + 1)) 0 crowded.heap).2.2)) ∧
      m.walked = [(5, 'c'), (3, 'b'), (1, 'a')] ∧
      (m.filter (fun n _ v => (n % 2 == 1, v, n + 1)) 0 heap).2.1.walked = [(3, 'b')] ∧
      ∃ verdict, m.OneByOne heap (m.table.refs.filter fun q => (verdict q).isNone)
        (Map.eraseEach (.ofFun hashByParity) m heap (m.rejectedKeys verdict)).1
        (Map.eraseEach (.ofFun hashByParity) m heap (m.rejectedKeys verdict)).2
        (m.filter (fun n _ v => (n % 2 == 1, v, n + 1)) 0 heap).2.1.table
        (m.filter (fun n _ v => (n % 2 == 1, v, n + 1)) 0 heap).2.2 := by
  have h : Map.Reached (s := .lax) hashByParity _ _ :=
    (((Map.Reached.new () Lender.plain (Heap.lends_nil fun _ _ _ => true)).call
      (.insert 1 'a')).call (.insert 3 'b')).call (.insert 5 'c')
  obtain ⟨verdict, -, hone⟩ := filters_exact.2 _ _ _ _ hashByParity faithful_hashByParity _ _ h
    Nat (fun n _ v => (n % 2 == 1, v, n + 1)) 0
  exact ⟨by decide +kernel, fun C hC =>
    (filters_exact.1 crowded reachable_crowded C hC Nat (fun n _ v => (n % 2 == 1, v, n + 1))
      0).2.2.2, by rfl, by rfl, verdict, hone⟩

end System

end ArenaHash
