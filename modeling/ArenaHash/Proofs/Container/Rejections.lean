import ArenaHash.Proofs.Container.MapStates
import ArenaHash.Proofs.Table.Filtering

/-!
# Filtering and removing one by one

In a map, where no two entries have equal keys, removing the entry of a key removes one node and
nothing else. So removing the entries that a filter rejects one by one, in walking order, leads to
the same chains and returns the same slots in the same order.
-/

namespace ArenaHash

open Keyed (hasKey)

/-- The row without the cells in some slots. -/
def Rows.without {T : Type} (rows : Rows T) (qs : List Ref) : Rows T :=
  fun i => (rows i).filter fun c => c.ref ∉ qs

theorem Rows.without_nil {T : Type} (rows : Rows T) : rows.without [] = rows := by
  funext i
  simp [without]

theorem Rows.without_cons {T : Type} (rows : Rows T) (q : Ref) (qs : List Ref) :
    rows.without (q :: qs) = (rows.without [q]).without qs := by
  funext i
  simp [without, List.filter_filter, Bool.and_comm]

namespace Map

variable {s : Table.Shape} {K V A S : Type} [BEq K] [Allocator A] {f : S → K → UInt64}
  {m : Map s K V A S} {heap : Heap A} {rows : Rows (K × V)} {others : List (Loan A)}

/-- Removes the entries of some keys one by one. -/
def eraseEach (H : Hashing S K) (m : Map s K V A S) (heap : Heap A) (ks : List K) :
    Map s K V A S × Heap A :=
  ks.foldl (fun x k => (x.1.erase H k x.2).2) (m, heap)

/-- `m'` is `m` without the nodes in some slots, which were returned in this order. -/
structure Thinned (f : S → K → UInt64) (m : Map s K V A S) (heap : Heap A)
    (rows : Rows (K × V)) (others : List (Loan A)) (qs : List Ref) (m' : Map s K V A S)
    (heap' : Heap A) : Prop where
  placed : m'.Placed f heap' (rows.without qs) others
  unique : UniqueKeys m'.toList
  returned : m.table.Returned heap qs m'.table heap'
  bucketCount : m'.table.bucketCount = m.table.bucketCount

variable [EquivBEq K] (hf : Hashing.Faithful f)
include hf

/-- The one entry with the key of a cell is that of the cell. -/
theorem thinned_erase (h : m.Placed f heap rows others) (hu : UniqueKeys m.toList)
    {d : Cell (K × V)} (hd : d ∈ rows.all m.table.bucketCount) :
    Thinned f m heap rows others [d.ref] (m.erase (.ofFun f) d.entry.1 heap).2.1
      (m.erase (.ofFun f) d.entry.1 heap).2.2 := by
  have hplan := (Table.Releases.erase m.table (f m.builder d.entry.1) (hasKey d.entry.1)
    heap).toSamePlan
  have hself : hasKey d.entry.1 d.entry := BEq.rfl
  obtain ⟨i, -, hdi⟩ := rows.mem_all.mp hd
  have hi : m.bucketOf (.ofFun f) d.entry.1 = i := h.bucketOf_eq hf hdi hself
  rcases h.hit_or_miss hf d.entry.1 with ⟨hmiss, -, -⟩ | ⟨pre, cell, post, hit⟩
  · have hmem : d.entry ∈ m.toList := by
      rw [h.toList_eq]
      exact List.mem_map_of_mem hd
    have hnot := hmiss d.entry hmem
    rw [hself] at hnot
    cases hnot
  · have hrow := hit.row
    rw [hi] at hrow
    have hcell : d = cell := by
      rw [hrow, List.mem_append, List.mem_cons] at hdi
      rcases hdi with hpre | heq | hpost
      · have hnot := hit.unmatched d (List.mem_append_right _ hpre)
        rw [hself] at hnot
        cases hnot
      · exact heq
      · -- The entry after the first one with the key has another key.
        rw [hit.toList_eq h] at hu
        have hright : d.entry ∈ Keyed.Hit.right f m rows d.entry.1 post :=
          List.mem_map_of_mem (List.mem_append_left _ hpost)
        have hdiffer := (uniqueKeys_middle.mp hu).1 d.entry (List.mem_append_right _ hright)
        rw [show (cell.entry.1 == d.entry.1) = true from hit.hasKey] at hdiffer
        cases hdiffer
    subst hcell
    obtain ⟨m', heap', hrun, -, hp, hl, hreturned⟩ := hit.erase h hf
    have htable : m'.table = (m.erase (.ofFun f) d.entry.1 heap).2.1.table := by rw [hrun]
    have hwithout : rows.put i (pre ++ post) = rows.without [d.ref] := by
      funext j
      by_cases hj : j = i
      · subst hj
        have hnew := h.stores.ref_notMem hrow
        rw [Rows.put_self, Rows.without, hrow]
        simp only [List.append_nil, List.mem_map, List.mem_append, not_exists, not_and] at hnew
        rw [List.filter_append, List.filter_cons_of_neg (by simp), List.filter_eq_self.mpr,
          List.filter_eq_self.mpr]
        · exact fun c hc => by simpa using hnew c (.inr hc)
        · exact fun c hc => by simpa using hnew c (.inl hc)
      · rw [rows.put_of_ne hj, Rows.without, List.filter_eq_self.mpr]
        intro c hc
        have hne := h.stores.ref_ne hj (List.mem_append_left [] hdi) (h.stores.lt_of_mem hdi) hc
        simpa using hne.symm
    rw [hi, hwithout] at hp
    rw [hrun]
    refine ⟨hp, ?_, hreturned, htable ▸ hplan.bucketCount⟩
    rw [hl]
    refine hu.sublist ?_
    rw [hit.toList_eq h]
    exact (List.Sublist.append_left (List.sublist_cons_self _ _) _).map _

theorem thinned_eraseEach {ds : List (Cell (K × V))} (h : m.Placed f heap rows others)
    (hu : UniqueKeys m.toList) (hds : ∀ d ∈ ds, d ∈ rows.all m.table.bucketCount)
    (hn : (ds.map Cell.ref).Nodup) :
    Thinned f m heap rows others (ds.map Cell.ref)
      (eraseEach (.ofFun f) m heap (ds.map fun d => d.entry.1)).1
      (eraseEach (.ofFun f) m heap (ds.map fun d => d.entry.1)).2 := by
  induction ds generalizing m heap rows with
  | nil =>
    refine ⟨?_, hu, .refl m.table heap, rfl⟩
    rw [show ([] : List (Cell (K × V))).map Cell.ref = [] from rfl, Rows.without_nil]
    exact h
  | cons d ds ih =>
    obtain ⟨hd, hn⟩ := List.nodup_cons.mp hn
    have hfirst := thinned_erase hf h hu (hds d List.mem_cons_self)
    have hmem : ∀ e ∈ ds, e ∈ (rows.without [d.ref]).all
        (m.erase (.ofFun f) d.entry.1 heap).2.1.table.bucketCount := by
      intro e he
      obtain ⟨i, hi, hei⟩ := rows.mem_all.mp (hds e (List.mem_cons_of_mem d he))
      rw [hfirst.bucketCount]
      refine Rows.mem_all _ |>.mpr ⟨i, hi, List.mem_filter.mpr ⟨hei, ?_⟩⟩
      have hne : e.ref ≠ d.ref := fun heq => hd (heq ▸ List.mem_map_of_mem he)
      simpa using hne
    have hrest := ih hfirst.placed hfirst.unique hmem hn
    refine ⟨?_, hrest.unique, hfirst.returned.trans hrest.returned,
      hrest.bucketCount.trans hfirst.bucketCount⟩
    rw [show (d :: ds).map Cell.ref = d.ref :: ds.map Cell.ref from rfl, Rows.without_cons]
    exact hrest.placed

end Map

end ArenaHash
