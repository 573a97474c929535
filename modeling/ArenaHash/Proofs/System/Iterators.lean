import ArenaHash.Proofs.Container.Iterators
import ArenaHash.Proofs.Container.KeyBags
import ArenaHash.Proofs.System.Redistribution

/-!
# Iterators in a system

In every reachable system, and whatever keys hash to, the iterators of a container come to the same
nodes: those of the chains, bucket by bucket, each once. They tell how many are left, and an owning
iterator leaves a well-formed container at any time, which gives back what it still holds when it
goes (`Keyed.Spent`). In a multimap under one hash function the entries with a key are those that
the iterator over all entries shows.
-/

namespace ArenaHash

open Keyed (hasKey changeIterator popIterator)

namespace Keyed

variable {s : Table.Shape} {K V A S : Type} [Allocator A] {c : Keyed s K V A S} {heap : Heap A}
  {rows : Rows (K × V)} {others : List (Loan A)}

/-- What an owning iterator has left of `c` after `j` calls. -/
structure Spent (c : Keyed s K V A S) (heap : Heap A) (j : Nat) (c' : Keyed s K V A S)
    (heap' : Heap A) : Prop where
  wellFormed : c'.table.WellFormed
  size : c'.size = c.size - j
  refs : c'.table.refs = c.table.refs.drop j
  toList : c'.toList = c.toList.drop j
  returned : c.table.Returned heap (c.table.refs.take j) c'.table heap'
  dispose : c'.dispose heap' = heap'.repay (c.table.loans (c.table.refs.drop j))

/-- The slots that were returned are the first ones of the walk. -/
theorem Pops.spent {qs : List Ref} {j : Nat} {c' : Keyed s K V A S} {position : Nat}
    {heap' : Heap A} {rows' : Rows (K × V)} (h : c.table.Stores heap rows [] others)
    (hp : c.Pops heap others qs (c.toList.drop j) c' position heap' rows') :
    c.Spent heap j c' heap' := by
  have hentries : c'.toList = c.toList.drop j := hp.stores.toList_eq.trans hp.entries.symm
  have hlength : c'.table.refs.length = (c.table.refs.drop j).length := by
    have hdrop := congrArg List.length hp.entries
    rw [toList, h.toList_eq, List.length_drop, List.length_map, List.length_map] at hdrop
    rw [hp.stores.refs_eq, h.refs_eq, List.length_drop, List.length_map, List.length_map, hdrop]
  obtain ⟨rfl, hrefs⟩ := List.append_inj'
    (hp.refs.symm.trans (List.take_append_drop j c.table.refs).symm) hlength
  have hsize : c.table.size = c.table.refs.length := by
    rw [h.refs_eq, h.size_eq, List.append_nil, List.length_map]
  refine ⟨hp.stores.wellFormed, ?_, hrefs, hentries, hp.returned, ?_⟩
  · have hreturned := hp.returned.size
    rw [List.length_take, ← hsize] at hreturned
    show c'.table.size = c.table.size - j
    omega
  · rw [dispose, hp.stores.dispose_eq, hp.returned.loans_eq, hrefs]

variable [BEq K]

/-- What the iterators of a container come to. -/
structure Iterates (c : Keyed s K V A S) (heap : Heap A) : Prop where
  wellFormed : c.table.WellFormed
  /-- Each node has its entry in the list. -/
  entries : c.table.refs.map c.table.entryAt? = c.toList.map some
  nodes : c.table.nodeIterator.Yields c.cursor c.table.refs
  shows : c.iterator.Yields c.cursor c.toList
  shows_after : ∀ j, c.iterator.after j c.cursor = c.table.nodeIterator.after j c.cursor
  changes : ∀ {σ : Type} (change : σ → K → V → V × σ) (state : σ),
    (changeIterator change).Yields (c, c.cursor, state) c.toList
  changes_after : ∀ {σ : Type} (change : σ → K → V → V × σ) (state : σ) (j : Nat),
    ((changeIterator change).after j (c, c.cursor, state)).2.1 =
      c.table.nodeIterator.after j c.cursor
  pops : popIterator.Yields (c, 0, heap) c.toList
  pops_after : ∀ j, c.Spent heap j (popIterator.after j (c, 0, heap)).1
    (popIterator.after j (c, 0, heap)).2.2
  runs : ∀ (H : Hashing S K) (k : K), c.runIterator.Yields (c.runCursor H k) (c.equalRun H k)

theorem iterates (h : c.table.Stores heap rows [] others) : c.Iterates heap where
  wellFormed := h.wellFormed
  entries := by
    rw [toList, h.refs_eq, h.toList_eq, List.map_map, List.map_map]
    exact List.map_congr_left fun d hd => h.entryAt?_eq (List.mem_append_left _ hd)
  nodes := c.table.nodeIterator_tracks.yields ⟨_, h.refs_eq, h.ahead⟩
  shows := (iterator_tracks h).yields ⟨_, h.toList_eq, fun _ hd => hd, h.ahead⟩
  shows_after := iterator_after h
  changes change state := (changeIterator_tracks change).yields (changes_start h state)
  changes_after change state j := changeIterator_after change h state j
  pops := popIterator_tracks.yields (popsTo_start h)
  pops_after j := by
    obtain ⟨qs, rows', hp⟩ := popIterator_tracks.after (popsTo_start h) j
    exact hp.spent h
  runs H k := by
    have hrefs := h.equalRun_eq (H.key c.builder k) (hasKey k)
    have hmem : ∀ d ∈ ((rows (c.bucketOf H k)).dropWhile (!c.isFor H k ·)).takeWhile (c.isFor H k),
        d ∈ rows.all c.table.bucketCount := fun d hd =>
      h.mem_all ((List.dropWhile_sublist _).mem ((List.takeWhile_sublist _).mem hd))
    have hentries : c.equalRun H k = _ := (congrArg (List.filterMap _) hrefs).trans
      (h.entries_eq fun d hd => List.mem_append_left _ (hmem d hd))
    exact (runIterator_tracks h).yields ⟨_, hentries, hmem, h.runAhead _ _⟩

end Keyed

/-- The iterators over all entries and over those with a key agree. -/
theorem Multimap.Run.runs_of_iterator {s : Table.Shape} {K V A S : Type} [BEq K] [Allocator A]
    [EquivBEq K] {f : S → K → UInt64} {m : Multimap s K V A S} {heap : Heap A} {R : Runs K V}
    (hf : Hashing.Faithful f) (h : Multimap.Run f m heap R) :
    m.Iterates heap ∧
      ∀ k, m.runIterator.Yields (m.runCursor (.ofFun f) k) (m.toList.filter (hasKey k)) := by
  obtain ⟨rows, others, hp, hcl⟩ := (h.models hf).placed
  have hiterates : m.Iterates heap := Keyed.iterates hp.stores
  refine ⟨hiterates, fun k => ?_⟩
  rw [← hp.equalRun_eq hf hcl k]
  exact hiterates.runs (.ofFun f) k

namespace System

variable {A : Type} [Allocator A]

theorem iterators_exact :
    (∀ w : System A, Reachable w → ∀ C ∈ w.containers, C.2.Iterates w.heap) ∧
    ∀ (s : Table.Shape) (K S : Type) [BEq K] [EquivBEq K] (f : S → K → UInt64),
      Hashing.Faithful f →
        (∀ (V : Type) (m : Multimap s K V A S) (heap : Heap A) (R : Runs K V),
          Multimap.Run f m heap R → m.Iterates heap ∧
            ∀ k, m.runIterator.Yields (m.runCursor (.ofFun f) k) (m.toList.filter (hasKey k))) ∧
        ∀ (m : KeyBag s K A S) (heap : Heap A) (R : Runs K Unit),
          KeyBag.Run f m heap R → m.Iterates heap ∧
            ∀ k, m.runIterator.Yields (m.runCursor (.ofFun f) k)
              (m.toList.filter (hasKey k)) := by
  refine ⟨?_, fun s K S _ _ f hf => ⟨?_, ?_⟩⟩
  · rintro w h ⟨F, c⟩ hC
    obtain ⟨Cs, heap, lost⟩ := w
    obtain ⟨pre, post, rfl⟩ := List.append_of_mem hC
    obtain ⟨rows, hs⟩ := h.sound.focus
    exact Keyed.iterates hs
  · exact fun V m heap R hrun => hrun.runs_of_iterator hf
  · exact fun m heap R hrun => hrun.multimap.runs_of_iterator hf

/-- Two of six entries are taken out of a container whose chains are anywhere, and the two entries
with a key are found in a multimap. -/
theorem iterators_exact_crowded :
    let heap : Heap Lender := { serves := fun _ _ _ => true }
    let m : Multimap .lax Nat Char Lender Unit := .new () .plain
    let (_, m, heap) := Multimap.perform (.ofFun hashByParity) m heap (.insert 1 'a')
    let (_, m, heap) := Multimap.perform (.ofFun hashByParity) m heap (.insert 3 'b')
    let (_, m, _) := Multimap.perform (.ofFun hashByParity) m heap (.insert 1 'c')
    (crowded.containers.map fun C =>
        (popIterator.after 2 (C.2, 0, crowded.heap)).1.table.refs) =
        [[.overflow 1, .overflow 3, .overflow 0, .overflow 4]] ∧
      (∀ C ∈ crowded.containers, C.2.Iterates crowded.heap) ∧
      m.toList.filter (hasKey 1) = [(1, 'a'), (1, 'c')] ∧
      m.runIterator.Yields (m.runCursor (.ofFun hashByParity) 1) (m.toList.filter (hasKey 1)) := by
  have hrun : Multimap.Run (s := .lax) hashByParity _ _ _ :=
    (((Multimap.Run.start () Lender.plain (Heap.lends_nil fun _ _ _ => true)).call
      (.insert 1 'a')).call (.insert 3 'b')).call (.insert 1 'c')
  have hruns := (iterators_exact.2 _ _ _ hashByParity faithful_hashByParity).1 _ _ _ _ hrun
  exact ⟨by decide +kernel, fun C hC => iterators_exact.1 crowded reachable_crowded C hC, by rfl,
    hruns.2 1⟩

end System

end ArenaHash
