import ArenaHash.Proofs.Table.Arrays
import ArenaHash.Proofs.Table.Rows
import Mathlib.Data.List.Find
import Mathlib.Data.List.Nodup

/-!
# What a table stores

`t.Keeps heap live others`: the table's slots are `live`, its size counts them, and the heap lends
the blocks of these slots, the grown bucket array and the `others`, which belong to someone else.
`t.Stores heap rows loose others`: moreover the chains of the table are `rows`, and the remaining
live slots hold the `loose` cells, which are in no chain. Between operations nothing is loose.

The invariant says nothing about keys or hashes. What lookups and walks read is given by `rows`.
-/

namespace ArenaHash

section

variable {α : Type} {p q : α → Bool}

theorem dropWhile_congr : ∀ {l : List α}, (∀ x ∈ l, p x = q x) → l.dropWhile p = l.dropWhile q
  | [], _ => rfl
  | x :: l, h => by
    rw [List.dropWhile_cons, List.dropWhile_cons, h x List.mem_cons_self,
      dropWhile_congr fun y hy => h y (List.mem_cons_of_mem x hy)]

theorem takeWhile_congr : ∀ {l : List α}, (∀ x ∈ l, p x = q x) → l.takeWhile p = l.takeWhile q
  | [], _ => rfl
  | x :: l, h => by
    rw [List.takeWhile_cons, List.takeWhile_cons, h x List.mem_cons_self,
      takeWhile_congr fun y hy => h y (List.mem_cons_of_mem x hy)]

end

namespace Table

variable {s : Shape} {T A : Type}

/-- The blocks a table has to return, if its slots are `live`. -/
def loans (t : Table s T A) (live : List Ref) : List (Loan A) :=
  t.nodes.loans live ++ t.buckets.loans Shape.headLayout t.delegate

@[simp] theorem bucketCount_setHead (t : Table s T A) (i : Nat) (head : Option Ref) :
    (t.setHead i head).bucketCount = t.bucketCount := Buckets.count_setHead _ _ _

structure Keeps [Allocator A] (t : Table s T A) (heap : Heap A) (live : List Ref)
    (others : List (Loan A)) : Prop where
  holds : t.nodes.Holds live
  size : t.size = live.length
  sound : t.buckets.Sound Shape.headLayout s.buckets
  lends : heap.Lends (t.loans live ++ others)

structure Stores [Allocator A] (t : Table s T A) (heap : Heap A) (rows : Rows T)
    (loose : List (Cell T)) (others : List (Loan A)) : Prop where
  chains : ∀ i, t.nodes.Segment (t.buckets.head i) (rows i) none
  carries : ∀ c ∈ loose, t.nodes.Carries c
  keeps : t.Keeps heap ((rows.all t.bucketCount ++ loose).map Cell.ref) others

variable [Allocator A] {t : Table s T A} {heap : Heap A} {live : List Ref} {rows : Rows T}
  {loose : List (Cell T)} {others : List (Loan A)}

theorem Keeps.perm {live' : List Ref} (h : t.Keeps heap live others) (hp : live.Perm live') :
    t.Keeps heap live' others where
  holds := h.holds.perm hp
  size := h.size.trans hp.length_eq
  sound := h.sound
  lends := h.lends.perm (.append_right _ (.append_right _ ((hp.filterMap _).map _)))

theorem Keeps.lt_capacity (h : t.Keeps heap live others) {q : Ref} (hq : q ∈ live) (i : Nat)
    (hi : q = .inline i) : i < s.capacity :=
  h.holds.lt_capacity hq i hi

/-- A table with the heads of its array empty. -/
theorem Keeps.stores_loose (h : t.Keeps heap (loose.map Cell.ref) others)
    (hc : ∀ c ∈ loose, t.nodes.Carries c) (hh : ∀ i, t.buckets.head i = none) :
    t.Stores heap (fun _ => []) loose others where
  chains := hh
  carries := hc
  keeps := by simpa using h

theorem keeps_new (delegate : A) (hl : heap.Lends others) :
    (new delegate : Table s T A).Keeps heap [] others where
  holds := .new delegate
  size := rfl
  sound := .new _ _
  lends := hl

theorem stores_new (delegate : A) (hl : heap.Lends others) :
    (new delegate : Table s T A).Stores heap (fun _ => []) [] others :=
  (keeps_new delegate hl).stores_loose (by simp) fun i => HeadRow.head_empty s.buckets i

namespace Stores

theorem two_le_bucketCount (h : t.Stores heap rows loose others) : 2 ≤ t.bucketCount :=
  h.keeps.sound.two_le_count s.two_le_buckets

theorem bucketCount_pos (h : t.Stores heap rows loose others) : 0 < t.bucketCount :=
  Nat.lt_of_lt_of_le Nat.zero_lt_two h.two_le_bucketCount

theorem bucketOf_lt (h : t.Stores heap rows loose others) (hash : UInt64) :
    t.bucketOf hash < t.bucketCount :=
  Nat.mod_lt _ h.bucketCount_pos

/-- Past the last bucket there are no cells. -/
theorem row_eq_nil (h : t.Stores heap rows loose others) {i : Nat} (hi : t.bucketCount ≤ i) :
    rows i = [] := by
  have hc := h.chains i
  rw [Buckets.head_eq_none hi] at hc
  exact hc.eq_nil

theorem lt_of_mem (h : t.Stores heap rows loose others) {i : Nat} {c : Cell T} (hc : c ∈ rows i) :
    i < t.bucketCount := by
  rcases Nat.lt_or_ge i t.bucketCount with hi | hi
  · exact hi
  · rw [h.row_eq_nil hi] at hc
    cases hc

theorem mem_all (h : t.Stores heap rows loose others) {i : Nat} {c : Cell T} (hc : c ∈ rows i) :
    c ∈ rows.all t.bucketCount :=
  rows.mem_all.mpr ⟨i, h.lt_of_mem hc, hc⟩

theorem mem_cells (h : t.Stores heap rows loose others) {i : Nat} {c : Cell T} (hc : c ∈ rows i) :
    c ∈ rows.all t.bucketCount ++ loose :=
  List.mem_append_left _ (h.mem_all hc)

theorem nodup (h : t.Stores heap rows loose others) :
    ((rows.all t.bucketCount ++ loose).map Cell.ref).Nodup := h.keeps.holds.nodup

theorem size_eq (h : t.Stores heap rows loose others) :
    t.size = (rows.all t.bucketCount ++ loose).length :=
  h.keeps.size.trans (List.length_map _)

theorem size_le (h : t.Stores heap rows loose others) (ho : s.overflow = false) :
    t.size ≤ s.capacity := by
  rw [h.keeps.size]
  exact h.keeps.holds.length_le ho

/-- What the inline slots cannot hold is in overflow slots. -/
theorem size_sub_le (h : t.Stores heap rows loose others) :
    t.size - s.capacity ≤ t.nodes.overflowLive := by
  have hinline := h.keeps.holds.inlineLive_le
  have hcapacity : s.pool.capacity = s.capacity := rfl
  have hall := Handle.length_index_add_block ((rows.all t.bucketCount ++ loose).map Cell.ref)
  rw [← h.keeps.holds.overflowLive, ← h.keeps.size] at hall
  omega

theorem carries_of_mem (h : t.Stores heap rows loose others) {c : Cell T}
    (hc : c ∈ rows.all t.bucketCount ++ loose) : t.nodes.Carries c := by
  rcases List.mem_append.mp hc with hc | hc
  · obtain ⟨i, -, hi⟩ := rows.mem_all.mp hc
    exact (h.chains i).carries hi
  · exact h.carries c hc

theorem length_row_le (h : t.Stores heap rows loose others) (i : Nat) :
    (rows i).length ≤ t.size := by
  rw [h.keeps.size]
  rcases Nat.lt_or_ge i t.bucketCount with hi | hi
  · rw [rows.all_eq hi]
    simp only [List.length_map, List.length_append]
    omega
  · simp [h.row_eq_nil hi]

/-- The heap may have changed in what it lends to others. -/
theorem rebase (h : t.Stores heap rows loose others) {heap' : Heap A} {others' : List (Loan A)}
    (hl : heap'.Lends (t.loans ((rows.all t.bucketCount ++ loose).map Cell.ref) ++ others')) :
    t.Stores heap' rows loose others' :=
  { h with keeps := { h.keeps with lends := hl } }

/-! ## What is read -/

theorem head_eq (h : t.Stores heap rows loose others) (i : Nat) :
    t.buckets.head i = (rows i).head?.map Cell.ref := (h.chains i).head_eq

theorem chain_eq (h : t.Stores heap rows loose others) (i : Nat) :
    t.chain i = (rows i).map Cell.ref := by
  rw [chain, (h.chains i).follow, List.take_of_length_le]
  simpa using h.length_row_le i

theorem refs_eq (h : t.Stores heap rows loose others) :
    t.refs = (rows.all t.bucketCount).map Cell.ref := by
  rw [refs, Rows.all, List.map_flatMap]
  exact List.flatMap_congr fun i _ => h.chain_eq i

theorem entryAt?_eq (h : t.Stores heap rows loose others) {c : Cell T}
    (hc : c ∈ rows.all t.bucketCount ++ loose) : t.entryAt? c.ref = some c.entry := by
  obtain ⟨next, hn⟩ := h.carries_of_mem hc
  simp [entryAt?, node?, hn]

theorem entries_eq (h : t.Stores heap rows loose others) {cs : List (Cell T)}
    (hcs : ∀ c ∈ cs, c ∈ rows.all t.bucketCount ++ loose) :
    (cs.map Cell.ref).filterMap t.entryAt? = cs.map Cell.entry := by
  rw [List.filterMap_map]
  induction cs with
  | nil => rfl
  | cons c cs ih =>
    have hc : (t.entryAt? ∘ Cell.ref) c = some c.entry := h.entryAt?_eq (hcs c List.mem_cons_self)
    rw [List.filterMap_cons_some hc, ih fun d hd => hcs d (List.mem_cons_of_mem _ hd)]
    rfl

theorem toList_eq (h : t.Stores heap rows loose others) :
    t.toList = (rows.all t.bucketCount).map Cell.entry := by
  rw [toList, h.refs_eq, h.entries_eq fun c hc => List.mem_append_left _ hc]

theorem matchesAt_eq (h : t.Stores heap rows loose others) (hash : UInt64) (test : T → Bool)
    {c : Cell T} (hc : c ∈ rows.all t.bucketCount ++ loose) :
    t.matchesAt hash test c.ref = c.isMatch hash test := by
  obtain ⟨next, hn⟩ := h.carries_of_mem hc
  simp [matchesAt, node?, hn, isMatch, Cell.isMatch]

section Lookup

variable (h : t.Stores heap rows loose others) (hash : UInt64) (test : T → Bool)
include h

theorem matches_row (i : Nat) : ∀ c ∈ rows i, t.matchesAt hash test c.ref = c.isMatch hash test :=
  fun _ hc => h.matchesAt_eq hash test (h.mem_cells hc)

theorem find?_eq : t.find? hash test =
    ((rows (t.bucketOf hash)).find? (Cell.isMatch hash test)).map Cell.ref := by
  have hm := h.matches_row hash test (t.bucketOf hash)
  rw [find?, h.chain_eq, List.find?_map]
  congr 1
  exact List.find?_congr fun c hc => hm c hc

theorem count_eq : t.count hash test =
    (rows (t.bucketOf hash)).countP (Cell.isMatch hash test) := by
  have hm := h.matches_row hash test (t.bucketOf hash)
  rw [count, h.chain_eq, List.countP_map]
  exact List.countP_congr fun c hc => by simp [hm c hc]

theorem equalRun_eq : t.equalRun hash test =
    (((rows (t.bucketOf hash)).dropWhile (!Cell.isMatch hash test ·)).takeWhile
      (Cell.isMatch hash test)).map Cell.ref := by
  have hm := h.matches_row hash test (t.bucketOf hash)
  rw [equalRun, h.chain_eq]
  generalize rows (t.bucketOf hash) = cs at hm ⊢
  have hdrop : (cs.map Cell.ref).dropWhile (!t.matchesAt hash test ·) =
      (cs.dropWhile (!Cell.isMatch hash test ·)).map Cell.ref := by
    rw [List.dropWhile_map]
    congr 1
    exact dropWhile_congr fun c hc => by simp [hm c hc]
  have hsub : ∀ c ∈ cs.dropWhile (!Cell.isMatch hash test ·),
      t.matchesAt hash test c.ref = c.isMatch hash test :=
    fun c hc => hm c ((List.dropWhile_sublist _).mem hc)
  rw [hdrop, List.takeWhile_map]
  congr 1
  exact takeWhile_congr fun c hc => by simp [hsub c hc]

end Lookup

end Stores

end Table

end ArenaHash
