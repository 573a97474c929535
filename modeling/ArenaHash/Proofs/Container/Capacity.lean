import ArenaHash.Proofs.Container.Refusals
import ArenaHash.Proofs.Table.Strict

/-!
# Fixed capacity

What becomes of a container that may not overflow: it never has more entries than slots, keeps its
buckets, has nothing to do with the heap, can always be copied, and denies an insertion only if a
new entry is to be added while all slots are in use. So no slot is ever lost.
-/

namespace ArenaHash

namespace Keyed

variable {s : Table.Shape} {K V A S : Type} [BEq K] [Allocator A] {f : S → K → UInt64}
  {c c' : Keyed s K V A S} {heap heap' : Heap A} {rows : Rows (K × V)} {others : List (Loan A)}

/-! ## The heap -/

section Silent

variable (ho : s.overflow = false)
include ho

omit [BEq K] in
theorem heap_add (H : Hashing S K) (c : Keyed s K V A S) (k : K) (v : V) (heap : Heap A) :
    (Map.add H c k v heap).2.2 = heap := Table.heap_insertFront ho _ _ _ _ _

variable (hf : Hashing.Faithful f) (h : c.Placed f heap rows others) (ht : c.table.Tuned)
include hf h ht

theorem heap_perform {ρ : Type} (call : Call K V ρ) :
    (perform (.ofFun f) c heap call).2.2 = heap := by
  obtain ⟨c', heap', rows', hrun, hc⟩ := h.perform hf call
  have habandoned : call.abandoned c = [] := by
    cases call with
    | abandon => exact h.stores.loans_nodes_strict ho
    | _ => rfl
  have hs := hc.placed.stores
  have ht' := perform_tuned (.ofFun f) h.stores ht call
  have hr := perform_takesBack (.ofFun f) c heap call
  rw [habandoned, List.nil_append] at hs
  rw [hrun] at ht' hr ⊢
  exact h.stores.heap_eq ho ht hs ht' hr

theorem heap_map {ρ : Type} (call : Map.Call K V ρ) :
    (Map.perform (.ofFun f) c heap call).2.2 = heap := by
  cases call with
  | insert k v => exact heap_insert _ h.stores fun _ => heap_add ho _ c k v heap
  | replace k v => exact heap_replace _ h.stores fun _ => heap_add ho _ c k v heap
  | insertIfNew k v g =>
    exact heap_insertIfNew_call _ h.stores (fun _ => heap_add ho _ c k v heap) g
  | count k => rfl
  | common call => exact heap_perform ho hf h ht call

theorem heap_multimap {ρ : Type} (call : Multimap.Call K V ρ) :
    (Multimap.perform (.ofFun f) c heap call).2.2 = heap := by
  cases call with
  | insert k v => exact Table.heap_insertBeside ho _ _ _ _ _ _
  | count k | equalRun k => rfl
  | eraseAll k =>
    have hr := Table.Releases.eraseUpTo (f c.builder k) (hasKey k) c.table.size c.table heap
    obtain ⟨c', heap', rows', hrun, hc⟩ := h.becomes_eraseAll hf k
    have hrun' : Table.eraseUpTo (f c.builder k) (hasKey k) c.table.size c.table heap =
        (_, c'.table, heap') := congrArg (fun out => (out.1, out.2.1.table, out.2.2)) hrun
    simp only [Multimap.perform, hrun]
    rw [hrun'] at hr
    exact h.stores.heap_eq ho ht hc.placed.stores (hr.tuned ht) hr.returns
  | common call => exact heap_perform ho hf h ht call

theorem Step.silent [EquivBEq K] (hs : c.Step f heap c' heap') : heap' = heap := by
  cases hs with
  | map call => exact heap_map ho hf h ht call
  | multimap call => exact heap_multimap ho hf h ht call
  | keep k v => exact heap_insertIfNew _ h.stores fun _ => heap_add ho _ c k v heap
  | pop position =>
    have hr := Table.Releases.pop c.table position heap
    rcases h.stores.pop position with ⟨hrun, -⟩ | ⟨i, cell, cs, t', later, hrun, -, -, -, hs, -⟩
    · simp only [Keyed.pop, hrun]
    · simp only [Keyed.pop, hrun]
      rw [hrun] at hr
      exact h.stores.heap_eq ho ht hs (hr.tuned ht) hr.returns
  | setDelegate delegate => rfl
  | copied =>
    obtain ⟨t', hr⟩ := h.stores.copy_fits (h.stores.size_le ho) (ht.fixed ho)
    simp only [Keyed.copy, hr]
  | copy hr =>
    obtain ⟨t', hr'⟩ := h.stores.copy_fits (h.stores.size_le ho) (ht.fixed ho)
    simp only [Keyed.copy, hr'] at hr
    cases hr
    rfl

end Silent

/-! ## Denied insertions -/

/-- All slots are in use, and this is what the error says. -/
def Full (c : Keyed s K V A S) (e : MemoryError) : Prop :=
  c.size = s.capacity ∧ e = .full s.capacity

def Lacks (c : Keyed s K V A S) (k : K) : Prop := ∀ entry ∈ c.toList, !hasKey k entry

omit [BEq K] in
theorem Full.of_inserted (ho : s.overflow = false) {hash : UInt64}
    {hasher : Ref → K × V → UInt64} {add : Ref → List (Cell (K × V)) → List (Cell (K × V))}
    {result : Except MemoryError Ref × Table s (K × V) A × Heap A}
    (hi : Table.Inserted c.table heap rows others hash hasher add result) (e : MemoryError) :
    result.1 = .error e ↔ c.Full e := by
  have hdenial : ∀ r, s.denial c.table.size r = some e ↔ c.Full e := fun r => by
    simp [Table.Shape.denial, ho, Full, size, eq_comm]
  cases hi with
  | done _ _ _ granted =>
    have hnot : ¬c.Full e := fun hfull => by
      rw [(hdenial none).mpr hfull] at granted
      cases granted
    refine ⟨fun h => ?_, fun hfull => absurd hfull hnot⟩
    cases h
  | @denied rows' e' t' heap' _ _ r _ denied =>
    rw [← hdenial r, denied]
    exact ⟨fun h => congrArg some (Except.error.inj h), fun h => congrArg _ (Option.some.inj h)⟩

section Denied

variable (ho : s.overflow = false) (hf : Hashing.Faithful f) (h : c.Placed f heap rows others)
  (k : K) (v : V) (e : MemoryError)
include ho hf h

omit ho in
/-- A lookup of the key comes first, and only if it misses an entry is to be added. -/
theorem Placed.denied_iff {ρ : Type} {out : Except MemoryError ρ}
    (hmiss : c.find? (.ofFun f) k = none → c.locate? (.ofFun f) k = none →
      (out = .error e ↔ c.Full e))
    (hhit : ∀ q entry, c.find? (.ofFun f) k = some q →
      c.locate? (.ofFun f) k = some (q, entry) → ∃ a, out = .ok a) :
    out = .error e ↔ c.Lacks k ∧ c.Full e := by
  rcases h.hit_or_miss hf k with ⟨hlacks, hfind, hl⟩ | ⟨pre, cell, post, hit⟩
  · rw [hmiss hfind hl]
    exact ⟨fun hfull => ⟨hlacks, hfull⟩, And.right⟩
  · obtain ⟨a, rfl⟩ := hhit _ _ hit.find? hit.locate?
    have hmem : cell.entry ∈ c.toList := by simp [hit.toList_eq h]
    have hnot : ¬c.Lacks k := fun hlacks => by simpa [hit.hasKey] using hlacks _ hmem
    exact ⟨nofun, fun hfull => absurd hfull.1 hnot⟩

omit hf [BEq K] in
theorem Placed.add_denied_iff : (Map.add (.ofFun f) c k v heap).1 = .error e ↔ c.Full e :=
  Full.of_inserted ho (h.stores.insertFront (f c.builder k) (k, v) (c.hasher (.ofFun f))) e

theorem Placed.insert_denied_iff :
    (Map.insert (.ofFun f) c k v heap).1 = .error e ↔ c.Lacks k ∧ c.Full e := by
  apply h.denied_iff hf k e
  · intro _ hl
    simp only [Map.insert, hl, map_eq_error]
    exact h.add_denied_iff ho k v e
  · intro q entry _ hl
    simp only [Map.insert, hl]
    exact ⟨_, rfl⟩

theorem Placed.replace_denied_iff :
    (Map.replace (.ofFun f) c k v heap).1 = .error e ↔ c.Lacks k ∧ c.Full e := by
  apply h.denied_iff hf k e
  · intro _ hl
    simp only [Map.replace, hl, map_eq_error]
    exact h.add_denied_iff ho k v e
  · intro q entry _ hl
    simp only [Map.replace, hl]
    exact ⟨_, rfl⟩

theorem Placed.insertIfNew_denied_iff :
    (Map.insertIfNew (.ofFun f) c k v heap).1 = .error e ↔ c.Lacks k ∧ c.Full e := by
  apply h.denied_iff hf k e
  · intro hfind _
    simp only [Map.insertIfNew, hfind, map_eq_error]
    exact h.add_denied_iff ho k v e
  · intro q entry hfind _
    simp only [Map.insertIfNew, hfind]
    exact ⟨_, rfl⟩

omit hf in
theorem Placed.insertBeside_denied_iff :
    (Multimap.insert (.ofFun f) c k v heap).1 = .error e ↔ c.Full e := by
  have hi := h.stores.insertBeside (f c.builder k) (k, v) (hasKey k) (c.hasher (.ofFun f))
  exact map_eq_error.trans (Full.of_inserted ho hi e)

end Denied

/-! ## All of it -/

structure WithinCapacity (f : S → K → UInt64) (c : Keyed s K V A S) (heap : Heap A) : Prop where
  size_le : c.size ≤ s.capacity
  bucketCount : c.table.bucketCount = s.buckets
  /-- Nothing is requested and nothing returned. -/
  silent : ∀ c' heap', c.Step f heap c' heap' → heap' = heap
  dispose : c.dispose heap = heap
  copy : ∃ d, c.copy heap = (.ok d, heap)
  insert : ∀ k v e, (Map.insert (.ofFun f) c k v heap).1 = .error e ↔ c.Lacks k ∧ c.Full e
  replace : ∀ k v e, (Map.replace (.ofFun f) c k v heap).1 = .error e ↔ c.Lacks k ∧ c.Full e
  insertIfNew : ∀ k v e,
    (Map.insertIfNew (.ofFun f) c k v heap).1 = .error e ↔ c.Lacks k ∧ c.Full e
  insertBeside : ∀ k v e, (Multimap.insert (.ofFun f) c k v heap).1 = .error e ↔ c.Full e

theorem Reached.withinCapacity [EquivBEq K] (ho : s.overflow = false) (hf : Hashing.Faithful f)
    (h : Reached f c heap) : c.WithinCapacity f heap := by
  obtain ⟨rows, others, hp⟩ := h.placed hf
  have ht := h.tuned hf
  obtain ⟨t', hcopy⟩ := hp.stores.copy_fits (hp.stores.size_le ho) (ht.fixed ho)
  exact
    { size_le := hp.stores.size_le ho
      bucketCount := hp.stores.keeps.bucketCount_eq (ht.fixed ho)
      silent := fun _ _ hs => hs.silent ho hf hp ht
      dispose := hp.stores.heap_dispose ho ht
      copy := ⟨{ c with table := t' }, by simp only [Keyed.copy, hcopy]⟩
      insert := hp.insert_denied_iff ho hf
      replace := hp.replace_denied_iff ho hf
      insertIfNew := hp.insertIfNew_denied_iff ho hf
      insertBeside := hp.insertBeside_denied_iff ho }

/-- A container that may not overflow stays within its slots and its buckets, leaves the heap alone,
and denies exactly the insertions that would add an entry to a full one. -/
theorem strict_containers_within_capacity [EquivBEq K] (ho : s.overflow = false)
    (hf : Hashing.Faithful f) :
    (∀ (c : Keyed s K V A S) (heap : Heap A), Reached f c heap → c.WithinCapacity f heap) ∧
      ∀ (m : Keyed s K Unit A S) (heap : Heap A), Reached f m heap → ∀ k e,
        ((KeySet.insert (.ofFun f) m k heap).1 = .error e ↔ m.Lacks k ∧ m.Full e) ∧
        ((KeySet.replace (.ofFun f) m k heap).1 = .error e ↔ m.Lacks k ∧ m.Full e) ∧
        ((KeyBag.insert (.ofFun f) m k heap).1 = .error e ↔ m.Full e) := by
  refine ⟨fun c heap h => h.withinCapacity ho hf, fun m heap h k e => ?_⟩
  have hm := h.withinCapacity ho hf
  exact ⟨map_eq_error.trans (hm.insertIfNew k () e), map_eq_error.trans (hm.replace k () e),
    hm.insertBeside k () e⟩

/-- The slot of the removed entry serves the next one, and then there is none left. -/
theorem strict_map_within_capacity :
    let heap : Heap Lender := { serves := fun _ _ _ => true }
    let empty : Map .strict Nat Bool Lender Unit := .new () .plain
    let (_, m, heap) := Map.perform (.ofFun hashByParity) empty heap (.insert 1 true)
    let (_, m, heap) := Map.perform (.ofFun hashByParity) m heap (.common (.erase 1))
    let (_, m, heap) := Map.perform (.ofFun hashByParity) m heap (.insert 2 true)
    m.toList = [(2, true)] ∧ m.WithinCapacity hashByParity heap ∧
      (Map.insert (.ofFun hashByParity) m 3 true heap).1 = .error (.full 1) := by
  have h : Reached (s := .strict) hashByParity _ _ :=
    (((Reached.new () Lender.plain (Heap.lends_nil fun _ _ _ => true)).step
      (.map (.insert 1 true))).step (.map (.common (.erase 1)))).step (.map (.insert 2 true))
  have hw := (strict_containers_within_capacity rfl faithful_hashByParity).1 _ _ h
  refine ⟨rfl, hw, (hw.insert 3 true (.full 1)).mpr ⟨fun entry he => ?_, rfl, rfl⟩⟩
  have hentry : entry ∈ [(2, true)] := he
  rw [List.mem_singleton] at hentry
  subst hentry
  rfl

end Keyed

end ArenaHash
