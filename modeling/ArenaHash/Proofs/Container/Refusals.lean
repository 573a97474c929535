import ArenaHash.Proofs.Container.Plans
import ArenaHash.Proofs.Container.SelfCheck

/-!
# Denied insertions

An insertion that answers an error has added nothing. It may have grown the bucket array before it
was refused the node, and then the nodes are in new chains; in every other case nothing at all has
changed. Either way each entry is still in its slot, entries with equal keys are in the same order,
and the self-check succeeds.
-/

namespace ArenaHash

theorem map_eq_error {α β : Type} {r : Except MemoryError α} {g : α → β} {e : MemoryError} :
    r.map g = .error e ↔ r = .error e := by
  cases r with
  | error e' =>
    exact ⟨fun h => congrArg _ (Except.error.inj h), fun h => congrArg _ (Except.error.inj h)⟩
  | ok a => exact ⟨nofun, nofun⟩

namespace Table

variable {s : Shape} {T A : Type} [Allocator A] {t t' : Table s T A} {hasher : Ref → T → UInt64}
  {heap heap' : Heap A} {e : MemoryError}

/-- A larger array was due, and it was served. -/
def Grants (t : Table s T A) (heap : Heap A) : Prop :=
  ∃ count block later, t.due? = some count ∧
    heap.request t.delegate (Shape.headLayout.row (count + 1)) = (.ok block, later)

theorem Refusal.eq_or_redistributed (h : t.Refusal hasher heap e t' heap') :
    t' = t ∨ t.Grants heap ∧ ∃ count, t.Redistributed hasher count t' := by
  cases h with
  | full | node | array => exact .inl rfl
  | grown due array redistributed node => exact .inr ⟨⟨_, _, _, due, array⟩, _, redistributed⟩

end Table

namespace Keyed

variable {s : Table.Shape} {K V A S : Type} [BEq K]

/-- The slots of the entries with a key, in order. -/
def refsOf (c : Keyed s K V A S) (k : K) : List Ref :=
  c.table.refs.filter fun q => (c.table.entryAt? q).any (hasKey k)

variable [Allocator A] {f : S → K → UInt64} {c c' : Keyed s K V A S} {heap heap' : Heap A}
  {rows rows' : Rows (K × V)} {others : List (Loan A)} {e : MemoryError}

/-- `c'` has the entries of `c` in the same slots, and all else that does not depend on the bucket
array. -/
structure Unharmed (f : S → K → UInt64) (c c' : Keyed s K V A S) : Prop where
  builder : c'.builder = c.builder
  refs : c'.table.refs.Perm c.table.refs
  contentAt : ∀ q, c'.table.contentAt q = c.table.contentAt q
  refsOf : ∀ k, c'.refsOf k = c.refsOf k
  size : c'.size = c.size
  /-- The free slots, the counts of those in use, and the overflow allocator. -/
  books : c'.table.nodes.books = c.table.nodes.books
  maxLoad : c'.table.growth.maxLoad = c.table.growth.maxLoad
  inPlace : c'.InPlace f

/-- What a denied insertion comes to. -/
structure Denied (f : S → K → UInt64) (c : Keyed s K V A S) (heap : Heap A) (e : MemoryError)
    (c' : Keyed s K V A S) (heap' : Heap A) : Prop where
  unharmed : c.Unharmed f c'
  unchanged : ¬c.table.Grants heap → c' = c
  /-- Otherwise the chains of `c'` are those of `c`, redistributed. -/
  refusal : c.table.Refusal (c.hasher (.ofFun f)) heap e c'.table heap'

/-- If it answers an error, it leaves the container as a denied insertion may. -/
def Atomic {ρ : Type} (f : S → K → UInt64) (c : Keyed s K V A S) (heap : Heap A)
    (out : Except MemoryError ρ × Keyed s K V A S × Heap A) : Prop :=
  ∀ e, out.1 = .error e → c.Denied f heap e out.2.1 out.2.2

theorem Atomic.map {ρ τ : Type} {out : Except MemoryError ρ × Keyed s K V A S × Heap A}
    (h : Atomic f c heap out) (g : ρ → τ) : Atomic f c heap (out.1.map g, out.2) :=
  fun e he => h e (map_eq_error.mp he)

theorem refsOf_eq (h : c.Placed f heap rows others) (k : K) :
    c.refsOf k =
      ((rows.all c.table.bucketCount).filter fun cell => hasKey k cell.entry).map Cell.ref := by
  rw [Keyed.refsOf, h.stores.refs_eq, List.filter_map]
  refine congrArg _ (List.filter_congr fun cell hc => ?_)
  have hentry := h.stores.entryAt?_eq (List.mem_append_left _ hc)
  rw [Function.comp_apply, hentry, Option.any_some]

section

variable (hf : Hashing.Faithful f) (h : c.Placed f heap rows others)
include hf h

/-- The rows may be regrouped, and nothing else is different. -/
theorem Placed.denied {t' : Table s (K × V) A}
    (hs : t'.Stores heap' rows' [] others)
    (hre : Rows.Regrouped (c.hasher (.ofFun f)) rows rows' c.table.bucketCount t'.bucketCount)
    (hr : c.table.Refusal (c.hasher (.ofFun f)) heap e t' heap') :
    c.Denied f heap e { c with table := t' } heap' := by
  have h' : Placed f { c with table := t' } heap' rows' others :=
    ⟨hs, h.placed.regrouped (fun _ _ => rfl) hre⟩
  have hrefs : t'.refs.Perm c.table.refs := by
    rw [hs.refs_eq, h.stores.refs_eq]
    exact (hre.perm hs.bucketCount_pos).map _
  have hrefsOf : ∀ k, refsOf { c with table := t' } k = c.refsOf k := fun k => by
    rw [refsOf_eq h', refsOf_eq h, h'.filter_all hf]
    exact congrArg _ (h.cells_regrouped hf hre k)
  rcases hr.eq_or_redistributed with rfl | ⟨hgrants, count, hred⟩
  · exact ⟨⟨rfl, hrefs, fun _ => rfl, hrefsOf, rfl, rfl, rfl, h'.inPlace⟩, fun _ => rfl, hr⟩
  · refine ⟨⟨rfl, hrefs, hred.contentAt, hrefsOf, hred.size, hred.books, ?_, h'.inPlace⟩,
      fun hnot => absurd hgrants hnot, hr⟩
    exact (congrArg Growth.maxLoad hred.growth).trans (Growth.maxLoad_retarget _ _)

variable (ht : c.table.Tuned) (k : K) (v : V)
include ht

theorem Placed.atomic_add : Atomic f c heap (Map.add (.ofFun f) c k v heap) := by
  intro e he
  have hi := h.stores.insertFront (f c.builder k) (k, v) (c.hasher (.ofFun f))
  rcases hr : c.table.insertFront (f c.builder k) (k, v) (c.hasher (.ofFun f)) heap with
    ⟨e' | q, t', later⟩
  · simp only [Map.add, Hashing.key_ofFun, hr] at he ⊢
    cases he
    rw [hr] at hi
    cases hi with
    | denied regrouped stores =>
      exact h.denied hf stores regrouped (ht.insertFront_refused h.stores hr)
  · simp only [Map.add, Hashing.key_ofFun, hr] at he
    cases he

/-- A lookup of the key comes first; a hit answers no error. -/
theorem Placed.atomic_insert : Atomic f c heap (Map.insert (.ofFun f) c k v heap) := by
  unfold Map.insert
  split
  · exact fun _ => nofun
  · exact (h.atomic_add hf ht k v).map _

theorem Placed.atomic_replace : Atomic f c heap (Map.replace (.ofFun f) c k v heap) := by
  unfold Map.replace
  split
  · exact fun _ => nofun
  · exact (h.atomic_add hf ht k v).map _

theorem Placed.atomic_insertIfNew : Atomic f c heap (Map.insertIfNew (.ofFun f) c k v heap) := by
  unfold Map.insertIfNew
  split
  · exact fun _ => nofun
  · exact (h.atomic_add hf ht k v).map _

theorem Placed.atomic_insertBeside :
    Atomic f c heap (Multimap.insert (.ofFun f) c k v heap) := by
  intro e he
  have hi := h.stores.insertBeside (f c.builder k) (k, v) (hasKey k) (c.hasher (.ofFun f))
  rcases hr : c.table.insertBeside (f c.builder k) (k, v) (hasKey k) (c.hasher (.ofFun f)) heap
    with ⟨e' | q, t', later⟩
  · simp only [Multimap.insert, Hashing.key_ofFun, hr] at he ⊢
    cases he
    rw [hr] at hi
    cases hi with
    | denied regrouped stores =>
      exact h.denied hf stores regrouped (ht.insertBeside_refused h.stores hr)
  · simp only [Multimap.insert, Hashing.key_ofFun, hr] at he
    cases he

end

/-- An insertion that answers an error has left every entry in its slot and equal keys in order.
Unless a larger bucket array was served to it before the node was refused, it has left the whole
container as it was. -/
theorem denied_insertions_atomic [EquivBEq K] (hf : Hashing.Faithful f) :
    (∀ (c : Keyed s K V A S) (heap : Heap A), Reached f c heap → ∀ k v,
      Atomic f c heap (Map.insert (.ofFun f) c k v heap) ∧
      Atomic f c heap (Map.replace (.ofFun f) c k v heap) ∧
      Atomic f c heap (Map.insertIfNew (.ofFun f) c k v heap) ∧
      Atomic f c heap (Multimap.insert (.ofFun f) c k v heap)) ∧
    ∀ (m : Keyed s K Unit A S) (heap : Heap A), Reached f m heap → ∀ k,
      Atomic f m heap (KeySet.insert (.ofFun f) m k heap) ∧
      Atomic f m heap (KeySet.replace (.ofFun f) m k heap) ∧
      Atomic f m heap (KeyBag.insert (.ofFun f) m k heap) := by
  refine ⟨fun c heap h k v => ?_, fun m heap h k => ?_⟩
  · obtain ⟨rows, others, hp⟩ := h.placed hf
    have ht := h.tuned hf
    exact ⟨hp.atomic_insert hf ht k v, hp.atomic_replace hf ht k v,
      hp.atomic_insertIfNew hf ht k v, hp.atomic_insertBeside hf ht k v⟩
  · obtain ⟨rows, others, hp⟩ := h.placed hf
    have ht := h.tuned hf
    exact ⟨(hp.atomic_insertIfNew hf ht k ()).map _, (hp.atomic_replace hf ht k ()).map _,
      hp.atomic_insertBeside hf ht k ()⟩

/-- A third entry asks for five buckets and gets them, but no node. -/
theorem refused_node_keeps_entries :
    let heap : Heap Lender := { serves := fun events _ _ => events.length < 2 }
    let m : Multimap .lax Nat Char Lender Unit := .new () .plain
    let (_, m, heap) := Multimap.perform (.ofFun hashByParity) m heap (.insert 1 'a')
    let (_, m, heap) := Multimap.perform (.ofFun hashByParity) m heap (.insert 3 'b')
    let (answer, m', _) := Multimap.insert (.ofFun hashByParity) m 1 'c' heap
    answer = .error (.refused "overflow" 32 8) ∧ m.table.bucketCount = 2 ∧
      m'.table.bucketCount = 5 ∧ m.Unharmed hashByParity m' := by
  have h : Reached (s := .lax) hashByParity _ _ :=
    ((Reached.new () Lender.plain (Heap.lends_nil fun events _ _ => events.length < 2)).step
      (.multimap (.insert 1 'a'))).step (.multimap (.insert 3 'b'))
  have hatomic := ((denied_insertions_atomic faithful_hashByParity).1 _ _ h 1 'c').2.2.2
  exact ⟨rfl, rfl, rfl, (hatomic _ rfl).unharmed⟩

end Keyed

end ArenaHash
