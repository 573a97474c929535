import ArenaHash.Proofs.Table.Insertions
import ArenaHash.Proofs.Table.Obtained
import ArenaHash.Proofs.Table.Removals
import ArenaHash.Table.Copy
import Mathlib.Data.List.Rotate

/-!
# Copies

A copy has the bucket count of the table and, row by row, the same entries with the same stored
hashes in slots of its own. While it is made the table's loans are those of someone else, and a
copy that is denied memory is disposed of, so the table is left as it was.

What a copy requests is known beforehand (`copyRequests`): an array if the table has one, then a
block for each entry that its own inline slots cannot hold, wherever the table keeps its entries.
-/

namespace ArenaHash

/-- What a copy of a cell shares with it. -/
def Cell.content {T : Type} (c : Cell T) : T × Option UInt64 := (c.entry, c.hash)

namespace Table

/-- The request for the bucket array of a copy. -/
def arrayRequests {s : Shape} {T A : Type} (t : Table s T A) : List Layout :=
  if t.buckets.isGrown then [Shape.headLayout.row (t.bucketCount + 1)] else []

/-- All that a copy requests. -/
def copyRequests {s : Shape} {T A : Type} (t : Table s T A) : List Layout :=
  t.arrayRequests ++ List.replicate (t.size - s.capacity) s.nodeLayout

variable {s : Shape} {T A : Type} [Allocator A] {t copy copy' : Table s T A}
  {heap heap' : Heap A} {rows : Rows T} {others : List (Loan A)} {e : MemoryError}

/-- The loans of a table are known from its nodes. -/
theorem Stores.lends (h : t.Stores heap rows [] others) :
    heap.Lends (t.loans t.refs ++ others) := by
  have hl := h.keeps.lends
  rwa [List.append_nil, ← h.refs_eq] at hl

/-- A loose cell without a link is put at the end of a chain. -/
theorem Stores.linkLast (h : t.Stores heap rows [c] others) {i : Nat} (hi : i < t.bucketCount)
    (hc : t.nodes.Segment (some c.ref) [c] none) :
    Stores (match (rows i).getLast?.map Cell.ref with
      | some last => t.setNext last (some c.ref)
      | none => t.setHead i (some c.ref)) heap (rows.put i (rows i ++ [c])) [] others := by
  rcases List.eq_nil_or_concat (rows i) with hnil | ⟨pre, d, hrow⟩
  · rw [hnil]
    exact h.setHead hi hc (by simp [hnil])
  · rw [List.concat_eq_append] at hrow
    rw [hrow, List.getLast?_concat, List.append_assoc]
    exact h.setNext hrow hc (.refl _)

/-- One node more at the end of a chain. -/
theorem Stores.appendNode (h : t.Stores heap rows [] others) (hu : t.Unspoilt)
    (hroom : s.overflow = false → t.size < s.capacity) {i : Nat} (hi : i < t.bucketCount)
    {entry : T} {hash : Option UInt64} {q : Ref} {t' : Table s T A}
    (hnew : t.newNode ⟨entry, none, hash⟩ heap = (.ok q, t', heap')) :
    let linked := match (rows i).getLast?.map Cell.ref with
      | some last => t'.setNext last (some q)
      | none => t'.setHead i (some q)
    linked.Stores heap' (rows.put i (rows i ++ [⟨q, entry, hash⟩])) [] others ∧
      linked.bucketCount = t.bucketCount ∧ t.Obtained heap 1 [q] (.ok ()) linked heap' := by
  obtain ⟨hs, hseg, hb, -, -⟩ := h.newNode_ok hnew
  have hcount : t'.bucketCount = t.bucketCount := congrArg Buckets.count hb
  have hcell : t'.nodes.Segment (some q) [⟨q, entry, hash⟩] none := hseg (by simp) rfl
  have hobtained := hu.newNode hroom ⟨entry, none, hash⟩ heap
  rw [hnew] at hobtained
  refine ⟨hs.linkLast (hcount ▸ hi) hcell, ?_, hobtained.trans
    (hobtained.unspoilt.append i ((rows i).getLast?.map Cell.ref) (some q) heap')⟩
  split <;> simp [hcount]

/-! ## Chain by chain -/

/-- The copied cells of a chain come after those that are there. -/
theorem Stores.copyChain {cs : List (Cell T)} (hcs : ∀ c ∈ cs, t.nodes.Carries c) {i : Nat} :
    ∀ {copy : Table s T A} {heap : Heap A} {rows : Rows T}, copy.Stores heap rows [] others →
      copy.Unspoilt → (s.overflow = false → copy.size + cs.length ≤ s.capacity) →
      i < copy.bucketCount → ∀ result copy' heap',
      t.copyChain i (cs.map Cell.ref) ((rows i).getLast?.map Cell.ref) copy heap =
        (result, copy', heap') →
      ∃ ds, copy'.Stores heap' (rows.put i (rows i ++ ds)) [] others ∧
        copy'.bucketCount = copy.bucketCount ∧
        (result = .ok () → ds.map Cell.content = cs.map Cell.content) ∧
        copy.Obtained heap cs.length (ds.map Cell.ref) result copy' heap' := by
  induction cs with
  | nil =>
    intro copy heap rows h hu _ hi result copy' heap' hr
    cases hr
    exact ⟨[], by rw [List.append_nil, Rows.put_eq]; exact h, rfl, fun _ => rfl, hu.refl heap⟩
  | cons c cs ih =>
    intro copy heap rows h hu hroom hi result copy' heap' hr
    rw [List.length_cons] at hroom
    obtain ⟨next, hn⟩ := hcs c List.mem_cons_self
    have hnode : t.node? c.ref = some ⟨c.entry, next, c.hash⟩ := hn
    have hlt : s.overflow = false → copy.size < s.capacity := fun ho => by
      have := hroom ho
      omega
    simp only [List.map_cons, Table.copyChain, hnode] at hr
    rw [List.length_cons, Nat.add_comm]
    split at hr
    · next e copy₁ heap₁ hnew =>
      cases hr
      have hobtained := hu.newNode hlt ⟨c.entry, none, c.hash⟩ heap
      rw [hnew] at hobtained
      obtain ⟨rfl, hs, -⟩ := h.newNode_error hnew
      exact ⟨[], by rw [List.append_nil, Rows.put_eq]; exact hs, rfl, nofun,
        hobtained.refused cs.length⟩
    · next q copy₁ heap₁ hnew =>
      obtain ⟨hs, hcount, hobtained⟩ := h.appendNode hu hlt hi hnew
      have hlast : (rows.put i (rows i ++ [⟨q, c.entry, c.hash⟩]) i).getLast?.map Cell.ref =
          some q := by simp
      obtain ⟨ds, hs', hcount', hds, hrest⟩ :=
        ih (fun d hd => hcs d (List.mem_cons_of_mem _ hd)) hs hobtained.unspoilt
          (fun ho => by have := hroom ho; rw [hobtained.size rfl]; omega) (hcount ▸ hi)
          result copy' heap' (by rw [hlast]; exact hr)
      refine ⟨⟨q, c.entry, c.hash⟩ :: ds, ?_, hcount'.trans hcount, ?_, hobtained.trans hrest⟩
      · simpa using hs'
      · intro hok
        rw [List.map_cons, List.map_cons, hds hok]
        rfl

theorem Stores.copyChains (h : t.Stores heap₀ rows loose others₀) {is : List Nat} (hn : is.Nodup) :
    ∀ {copy : Table s T A} {heap : Heap A} {rows' : Rows T}, copy.Stores heap rows' [] others →
      copy.Unspoilt →
      (s.overflow = false → copy.size + (is.flatMap rows).length ≤ s.capacity) →
      (∀ i ∈ is, i < copy.bucketCount ∧ rows' i = []) → ∀ result copy' heap',
      t.copyChains is copy heap = (result, copy', heap') →
      ∃ rows'', copy'.Stores heap' rows'' [] others ∧ copy'.bucketCount = copy.bucketCount ∧
        (∀ i, i ∉ is → rows'' i = rows' i) ∧
        (result = .ok () → ∀ i ∈ is, (rows'' i).map Cell.content = (rows i).map Cell.content) ∧
        copy.Obtained heap (is.flatMap rows).length ((is.flatMap rows'').map Cell.ref) result
          copy' heap' := by
  induction is with
  | nil =>
    intro copy heap rows' hs hu _ _ result copy' heap' hr
    cases hr
    exact ⟨rows', hs, rfl, fun _ _ => rfl, nofun, hu.refl heap⟩
  | cons i is ih =>
    intro copy heap rows' hs hu hroom his result copy' heap' hr
    obtain ⟨hi, hempty⟩ := his i List.mem_cons_self
    obtain ⟨hnew, hn⟩ := List.nodup_cons.mp hn
    have hcarry : ∀ c ∈ rows i, t.nodes.Carries c := fun c hc => (h.chains i).carries hc
    simp only [List.flatMap_cons, List.length_append] at hroom ⊢
    simp only [Table.copyChains, h.chain_eq] at hr
    rcases hchain : t.copyChain i ((rows i).map Cell.ref) none copy heap with
      ⟨result₁, copy₁, heap₁⟩
    obtain ⟨ds, hs', hcount, hds, hobtained⟩ := hs.copyChain hcarry hu
      (fun ho => by have := hroom ho; omega) hi result₁ copy₁ heap₁ (by rw [hempty]; exact hchain)
    rw [hempty, List.nil_append] at hs'
    have hothers : ∀ j ∈ is, rows'.put i ds j = [] := fun j hj => by
      rw [rows'.put_of_ne (ne_of_mem_of_not_mem hj hnew)]
      exact (his j (List.mem_cons_of_mem _ hj)).2
    rw [hchain] at hr
    cases result₁ with
    | error e =>
      cases hr
      refine ⟨_, hs', hcount, fun j hj => ?_, nofun, ?_⟩
      · exact rows'.put_of_ne (fun hji => hj (List.mem_cons.mpr (.inl hji))) _
      · rw [List.flatMap_eq_nil_iff.mpr hothers, Rows.put_self, List.append_nil]
        exact hobtained.refused _
    | ok =>
      obtain ⟨rows'', hs'', hcount', hkept, hrows, hrest⟩ := ih hn hs' hobtained.unspoilt
        (fun ho => by have := hroom ho; rw [hobtained.size rfl]; omega)
        (fun j hj => ⟨hcount ▸ (his j (List.mem_cons_of_mem _ hj)).1, hothers j hj⟩) _ _ _ hr
      have hfirst : rows'' i = ds := (hkept i hnew).trans (Rows.put_self _ _ _)
      refine ⟨rows'', hs'', hcount'.trans hcount, fun j hj => ?_, fun hok j hj => ?_, ?_⟩
      · obtain ⟨hji, hj⟩ := not_or.mp (mt List.mem_cons.mpr hj)
        rw [hkept j hj, rows'.put_of_ne hji]
      · rcases List.mem_cons.mp hj with rfl | hj
        · rw [hfirst, hds rfl]
        · exact hrows hok j hj
      · rw [hfirst, List.map_append]
        exact hobtained.trans hrest

/-! ## Copies as a whole -/

theorem Stores.copyBase_ok (h : t.Stores heap rows [] others) {base : Table s T A}
    (hr : t.copyBase heap = (.ok base, heap')) :
    base.Stores heap' (fun _ => []) [] (t.loans t.refs ++ others) ∧
      base.bucketCount = t.bucketCount ∧ base.Unspoilt ∧ base.delegate = t.delegate ∧
      heap.requestAll t.delegate t.arrayRequests =
        (base.buckets.loans Shape.headLayout base.delegate, .ok (), heap') := by
  unfold Table.copyBase at hr
  simp only at hr
  unfold arrayRequests
  obtain ⟨hfree, huntouched⟩ := unspoilt_new (s := s) (T := T) t.delegate
  split at hr
  · next hgrown =>
    split at hr
    · cases hr
    · next fresh later ha =>
      cases hr
      obtain ⟨-, -, hrequest⟩ := HeapRow.request_of_alloc_ok ha
      obtain ⟨hrow, harray, hl, -⟩ := HeapRow.alloc_ok h.lends ha
      have hnew : (new t.delegate : Table s T A).Keeps heap [] (t.loans t.refs ++ others) :=
        keeps_new t.delegate h.lends
      obtain ⟨hk, -⟩ := hnew.grow h.two_le_bucketCount hrow harray hl
      have hempty : ∀ i, ((new t.delegate : Table s T A).buckets.grow fresh).2.head i = none :=
        fun i => by simp [Buckets.head, Buckets.row, Buckets.grow, hrow, HeadRow.head_empty]
      have hs : Stores { new t.delegate with
          buckets := ((new t.delegate : Table s T A).buckets.grow fresh).2 } heap' (fun _ => []) []
          (t.loans t.refs ++ others) := Keeps.stores_loose hk (by simp) hempty
      refine ⟨hs.withGrowth t.growth, ?_, ⟨hfree, huntouched⟩, rfl, ?_⟩
      · simp [bucketCount, Buckets.count, Buckets.row, Buckets.grow, hrow, HeadRow.count_empty]
      · rw [if_pos hgrown, Heap.requestAll_of_ok hrequest]
        simp [Heap.requestAll, Buckets.loans, Buckets.grow, HeapRow.loan, hrow,
          HeadRow.count_empty, delegate, new, Pool.new]
  · next hgrown =>
    cases hr
    refine ⟨(stores_new t.delegate h.lends).withGrowth t.growth, ?_, ⟨hfree, huntouched⟩, rfl, ?_⟩
    · have hnone : t.buckets.grown = none := by simpa [Buckets.isGrown] using hgrown
      simp [bucketCount, new, Buckets.count, Buckets.new, Buckets.row, hnone, HeadRow.count_empty,
        h.keeps.sound.inline_count]
    · rw [if_neg hgrown]
      rfl

theorem Stores.copyBase_error (h : t.Stores heap rows [] others)
    (hr : t.copyBase heap = (.error e, heap')) :
    heap'.Lends (t.loans t.refs ++ others) ∧
      heap.requestAll t.delegate t.arrayRequests = ([], .error e, heap') := by
  unfold Table.copyBase at hr
  simp only at hr
  split at hr
  · next hgrown =>
    split at hr
    · next ha =>
      cases hr
      refine ⟨(HeapRow.alloc_error h.lends ha).1, ?_⟩
      rw [arrayRequests, if_pos hgrown]
      exact Heap.requestAll_of_error
        (HeapRow.request_of_alloc_error (h.keeps.sound.array?_count hgrown) ha) []
    · cases hr
  · cases hr

/-- A copy, finished or not, has obtained what was granted of its requests. -/
theorem Stores.copyBegun (h : t.Stores heap rows [] others) {base : Table s T A} {middle : Heap A}
    {result : Except MemoryError Unit} (hbase : t.copyBase heap = (.ok base, middle))
    (hchains : t.copyChains (List.range t.bucketCount) base middle = (result, copy, heap')) :
    ∃ rows' granted, copy.Stores heap' rows' [] (t.loans t.refs ++ others) ∧
      copy.bucketCount = t.bucketCount ∧
      (result = .ok () → copy.nodes.overflowLive = t.size - s.capacity ∧
        ∀ i, (rows' i).map Cell.content = (rows i).map Cell.content) ∧
      heap.requestAll t.delegate t.copyRequests = (granted, result, heap') ∧
      granted.rotate t.arrayRequests.length = copy.loans copy.refs := by
  obtain ⟨hb, hcount, hu, hdelegate, harray⟩ := h.copyBase_ok hbase
  have hall : ((List.range t.bucketCount).flatMap rows).length = t.size := by
    rw [h.size_eq, List.append_nil]
    rfl
  have hsize : base.size = 0 := by simpa [Rows.all] using hb.size_eq
  obtain ⟨rows', hs, hcount', hkept, hrows, hobtained⟩ := h.copyChains List.nodup_range hb hu
    (fun ho => by rw [hall, hsize, Nat.zero_add]; exact h.size_le ho)
    (fun i hi => ⟨hcount ▸ List.mem_range.mp hi, rfl⟩) result _ _ hchains
  rw [hall] at hobtained
  have hrefs : copy.refs = ((List.range t.bucketCount).flatMap rows').map Cell.ref := by
    rw [hs.refs_eq, hcount'.trans hcount]
    rfl
  refine ⟨rows', base.buckets.loans Shape.headLayout base.delegate ++ base.nodes.loans copy.refs,
    hs, hcount'.trans hcount, fun hok => ⟨?_, fun i => ?_⟩, ?_, ?_⟩
  · rw [hobtained.unspoilt.overflowLive hs.keeps, hobtained.size hok, hsize, Nat.zero_add]
  · by_cases hi : i ∈ List.range t.bucketCount
    · exact hrows hok i hi
    · rw [hkept i hi, h.row_eq_nil (by simpa using hi)]
  · have hnodes := hobtained.requests
    rw [hsize, hdelegate, ← hrefs] at hnodes
    rw [copyRequests, Heap.requestAll_append harray,
      show List.replicate (t.size - s.capacity) s.nodeLayout = s.nodeRequests 0 t.size from rfl,
      hnodes]
  · have hlength := (Heap.length_of_requestAll harray).symm
    have hsame : copy.nodes.delegate = base.nodes.delegate := hobtained.delegate
    rw [hlength, List.rotate_append_length_eq, Table.loans, hobtained.delegate, hobtained.array,
      Pool.loans, Pool.loans, hsame]

/-- Table and copy have the same cells row by row, in slots of their own. -/
theorem Stores.copy_ok (h : t.Stores heap rows [] others)
    (hr : t.copy heap = (.ok copy, heap')) :
    ∃ rows', copy.Stores heap' rows' [] (t.loans t.refs ++ others) ∧
      t.Stores heap' rows [] (copy.loans copy.refs ++ others) ∧
      copy.bucketCount = t.bucketCount ∧
      (∀ i, (rows' i).map Cell.content = (rows i).map Cell.content) ∧
      copy.nodes.overflowLive = t.size - s.capacity ∧
      ∃ granted, heap.requestAll t.delegate t.copyRequests = (granted, .ok (), heap') ∧
        granted.rotate t.arrayRequests.length = copy.loans copy.refs := by
  unfold Table.copy at hr
  split at hr
  · cases hr
  · next base later hbase =>
    split at hr
    · cases hr
    · next hchains =>
      cases hr
      obtain ⟨rows', granted, hs, hcount, hdone, hgranted⟩ := h.copyBegun hbase hchains
      obtain ⟨hlive, hrows⟩ := hdone rfl
      have hl : heap'.Lends (t.loans t.refs ++ (copy.loans copy.refs ++ others)) :=
        hs.lends.perm (List.perm_append_comm_assoc _ _ _)
      rw [h.refs_eq] at hl
      exact ⟨rows', hs, h.rebase (by rw [List.append_nil]; exact hl), hcount, hrows, hlive,
        granted, hgranted⟩

/-- A copy that is denied memory returns what was granted, the nodes first and then the array. -/
theorem Stores.copy_error (h : t.Stores heap rows [] others)
    (hr : t.copy heap = (.error e, heap')) :
    t.Stores heap' rows [] others ∧
      ∃ granted later, heap.requestAll t.delegate t.copyRequests = (granted, .error e, later) ∧
        heap' = later.repay (granted.rotate t.arrayRequests.length) := by
  have hdenied : heap'.Lends (t.loans t.refs ++ others) ∧
      ∃ granted later, heap.requestAll t.delegate t.copyRequests = (granted, .error e, later) ∧
        heap' = later.repay (granted.rotate t.arrayRequests.length) := by
    unfold Table.copy at hr
    split at hr
    · next hbase =>
      cases hr
      obtain ⟨hl, hrequests⟩ := h.copyBase_error hbase
      exact ⟨hl, [], heap', Heap.requestAll_refused hrequests _, by rw [List.rotate_nil]; rfl⟩
    · next base middle hbase =>
      split at hr
      · next later hchains =>
        cases hr
        obtain ⟨rows', granted, hs, -, -, hrequests, hheld⟩ := h.copyBegun hbase hchains
        exact ⟨hs.dispose, granted, later, hrequests, by rw [hheld, hs.dispose_eq]⟩
      · cases hr
  obtain ⟨hlends, hgranted⟩ := hdenied
  rw [h.refs_eq] at hlends
  exact ⟨h.rebase (by rw [List.append_nil]; exact hlends), hgranted⟩

/-! ## What copies cost -/

/-- What becomes of a copy. Its requests are made one after the other. If all are granted it holds
these blocks and no others; if one is refused the copy fails with this refusal and what was granted
is returned, the nodes in order and then the array. -/
inductive Copying (t : Table s T A) (heap : Heap A) :
    Except MemoryError (Table s T A) × Heap A → Prop where
  | done {copy : Table s T A} {granted : List (Loan A)} {later : Heap A}
    (requests : heap.requestAll t.delegate t.copyRequests = (granted, .ok (), later))
    (held : copy.loans copy.refs = granted.rotate t.arrayRequests.length)
    (overflowLive : copy.nodes.overflowLive = t.size - s.capacity) :
    Copying t heap (.ok copy, later)
  | refused {granted : List (Loan A)} {e : MemoryError} {later : Heap A}
    (requests : heap.requestAll t.delegate t.copyRequests = (granted, .error e, later)) :
    Copying t heap (.error e, later.repay (granted.rotate t.arrayRequests.length))

theorem Stores.copying (h : t.Stores heap rows [] others) : t.Copying heap (t.copy heap) := by
  rcases hr : t.copy heap with ⟨e | copy, later⟩
  · obtain ⟨-, granted, middle, hrequests, rfl⟩ := h.copy_error hr
    exact .refused hrequests
  · obtain ⟨-, -, -, -, -, hlive, granted, hrequests, hheld⟩ := h.copy_ok hr
    exact .done hrequests hheld.symm hlive

/-- A copy fails exactly if the last request was refused, and with that refusal. -/
theorem Copying.continues {out : Except MemoryError (Table s T A) × Heap A}
    (h : t.Copying heap out) : heap.Continues out.2 (denied? out.1) := by
  have hasked := heap.asked t.delegate t.copyRequests
  cases h with
  | done requests =>
    rw [requests] at hasked
    exact hasked.continues
  | refused requests =>
    rw [requests] at hasked
    exact hasked.continues.trans (Heap.takesBack_repay _ _).continues

/-- A table that has not grown and whose entries fit into the inline slots is copied without any
request. -/
theorem Stores.copy_fits (h : t.Stores heap rows [] others) (hsize : t.size ≤ s.capacity)
    (hg : t.buckets.isGrown = false) : ∃ copy, t.copy heap = (.ok copy, heap) := by
  have hnone : t.copyRequests = [] := by
    simp [copyRequests, arrayRequests, hg, Nat.sub_eq_zero_of_le hsize]
  have hcopying := h.copying
  generalize t.copy heap = out at hcopying ⊢
  cases hcopying with
  | done requests =>
    rw [hnone] at requests
    cases requests
    exact ⟨_, rfl⟩
  | refused requests =>
    rw [hnone] at requests
    cases requests

end Table

end ArenaHash
