import ArenaHash.Proofs.Growth.Settling
import ArenaHash.Proofs.Table.Edits

/-!
# Growth

A table that grows takes all cells out of their rows and puts them into the rows of the larger
array: `Rows.group` gives each bucket those cells whose hash belongs there, in the order they had.
A growth plan asks for one of the primes only, and an array of so many heads has a layout, so a
table that may not grow has been refused memory.
-/

namespace ArenaHash

/-- An array that a growth plan asks for is not too large for a block. -/
theorem Table.Shape.array?_headLayout {count : Nat} (h : count ≤ largestPrime) :
    headLayout.array? (count + 1) = some (headLayout.row (count + 1)) := by
  apply if_pos
  have hword : largestPrime + 1 ≤ maxWord := by decide
  have hlimit : 16 * (largestPrime + 1) + 8 ≤ Layout.sizeLimit := by decide
  change _ ∧ 16 * (count + 1) + 8 ≤ _
  omega

/-! ## Grouping -/

namespace Rows

variable {T : Type}

/-- The cells that belong to each of `count` buckets. -/
def group (hasher : Ref → T → UInt64) (count : Nat) (cs : List (Cell T)) : Rows T :=
  fun i => cs.filter fun c => (c.hashBy hasher).toNat % count == i

variable {hasher : Ref → T → UInt64} {count : Nat}

theorem mem_group {cs : List (Cell T)} {c : Cell T} {i : Nat} :
    c ∈ group hasher count cs i ↔ c ∈ cs ∧ (c.hashBy hasher).toNat % count = i := by
  simp [group]

theorem group_cons (c : Cell T) (cs : List (Cell T)) :
    group hasher count (c :: cs) =
      (group hasher count cs).put ((c.hashBy hasher).toNat % count)
        (c :: group hasher count cs ((c.hashBy hasher).toNat % count)) := by
  funext i
  by_cases h : (c.hashBy hasher).toNat % count = i
  · subst h
    simp [group]
  · rw [put_of_ne _ (Ne.symm h)]
    simp [group, h]

/-- No cell is lost and none is there twice. -/
theorem all_group_perm (hpos : 0 < count) (cs : List (Cell T)) :
    ((group hasher count cs).all count).Perm cs := by
  induction cs with
  | nil => exact .of_eq (all_nil count)
  | cons c cs ih =>
    rw [group_cons]
    exact ((group hasher count cs).all_put_cons (Nat.mod_lt _ hpos) c).trans (ih.cons c)

/-- What an insertion may do to the rows before it adds a cell: nothing, or group them anew. -/
def Regrouped (hasher : Ref → T → UInt64) (rows rows' : Rows T) (count count' : Nat) : Prop :=
  rows' = rows ∧ count' = count ∨ rows' = group hasher count' (rows.all count)

theorem Regrouped.perm {rows rows' : Rows T} {count' : Nat} (hpos : 0 < count')
    (h : Regrouped hasher rows rows' count count') : (rows'.all count').Perm (rows.all count) := by
  rcases h with ⟨rfl, rfl⟩ | rfl
  · exact .refl _
  · exact all_group_perm hpos _

end Rows

namespace Table

variable {s : Shape} {T A : Type} [Allocator A] {t t' : Table s T A} {heap heap' : Heap A}
  {live : List Ref} {rows : Rows T} {loose : List (Cell T)} {others : List (Loan A)}
  {hasher : Ref → T → UInt64}

theorem Stores.hashAt_eq (h : t.Stores heap rows loose others) {c : Cell T}
    (hc : c ∈ rows.all t.bucketCount ++ loose) : t.hashAt hasher c.ref = c.hashBy hasher := by
  obtain ⟨next, hn⟩ := h.carries_of_mem hc
  simp [hashAt, node?, hn, Cell.hashBy]

omit [Allocator A] in
@[simp] theorem bucketCount_pushFront (t : Table s T A) (i : Nat) (q : Ref) :
    (t.pushFront i q).bucketCount = t.bucketCount := by
  simp [pushFront]

omit [Allocator A] in
@[simp] theorem bucketCount_place (t : Table s T A) (hasher : Ref → T → UInt64) (hs : List Ref) :
    (place t hasher hs).bucketCount = t.bucketCount := by
  unfold place
  induction hs generalizing t with
  | nil => rfl
  | cons q hs ih => rw [List.foldl_cons, ih, bucketCount_pushFront]

/-- Loose cells go to the rows they belong to, each in front of those before it. -/
theorem Stores.place (hasher : Ref → T → UInt64) {cs : List (Cell T)}
    (h : t.Stores heap rows (cs ++ loose) others) :
    (place t hasher (cs.map Cell.ref)).Stores heap
      (fun i => Rows.group hasher t.bucketCount cs.reverse i ++ rows i) loose others := by
  unfold Table.place
  induction cs generalizing t rows with
  | nil => exact h
  | cons c cs ih =>
    have hi := h.bucketOf_lt (t.hashAt hasher c.ref)
    have hrows := ih (h.pushFront hi)
    rw [List.map_cons, List.foldl_cons]
    convert hrows using 1
    funext i
    rw [h.hashAt_eq (by simp), bucketCount_pushFront, List.reverse_cons]
    simp only [bucketOf, Rows.group, Rows.put, List.filter_append, List.append_assoc]
    by_cases hci : (c.hashBy hasher).toNat % t.bucketCount = i
    · subst hci
      simp
    · simp [hci, Ne.symm hci]

/-- A larger array takes the place of the present one, which is returned. -/
theorem Keeps.grow (h : t.Keeps heap live others) {fresh : HeapRow Ref} {count : Nat}
    (h2 : 2 ≤ count) (hrow : fresh.row = .empty count)
    (ha : Shape.headLayout.array? (count + 1) = some (Shape.headLayout.row (count + 1)))
    (hl : heap'.Lends (fresh.loan Shape.headLayout t.delegate :: (t.loans live ++ others))) :
    let final := HeapRow.release? Shape.headLayout t.buckets.grown t.delegate heap'
    { t with buckets := (t.buckets.grow fresh).2 }.Keeps final live others ∧
      heap'.Continues final none := by
  have hl' : heap'.Lends (t.buckets.loans Shape.headLayout t.delegate ++
      (fresh.loan Shape.headLayout t.delegate :: (t.nodes.loans live ++ others))) := by
    refine hl.perm (List.Perm.trans ?_ List.perm_middle.symm)
    rw [loans, List.append_assoc]
    exact (List.perm_append_comm_assoc _ _ _).cons _
  obtain ⟨hfinal, hc⟩ := HeapRow.release?_lends (fun r hr => (h.sound.grown r hr).2.2) hl'
  refine ⟨⟨h.holds, h.size, h.sound.grow h2 hrow ha, ?_⟩, hc⟩
  apply hfinal.perm
  simp only [loans, Buckets.loans, Buckets.grow, Option.toList, List.map_cons, List.map_nil,
    List.append_assoc]
  exact List.perm_middle.symm

/-- A table that was granted a larger array. -/
theorem Stores.redistribute_ok (h : t.Stores heap rows [] others) {count : Nat}
    (h2 : 2 ≤ count) (hr : t.redistribute count hasher heap = (.ok (), t', heap')) :
    t'.Stores heap' (Rows.group hasher count (rows.all t.bucketCount)) [] others ∧
      t'.bucketCount = count ∧ heap.Continues heap' none := by
  unfold Table.redistribute at hr
  split at hr
  · cases hr
  · next fresh later ha =>
    obtain ⟨hrow, harray, hl, hc⟩ := HeapRow.alloc_ok h.keeps.lends ha
    obtain ⟨hk, hc'⟩ := h.keeps.grow h2 hrow harray hl
    simp only [Prod.mk.injEq, true_and] at hr
    obtain ⟨rfl, rfl⟩ := hr
    have hcount : Buckets.count (t.buckets.grow fresh).2 = count := by
      simp [Buckets.count, Buckets.row, Buckets.grow, hrow, HeadRow.count_empty]
    have hempty : ∀ i, (t.buckets.grow fresh).2.head i = none := fun i => by
      simp [Buckets.head, Buckets.row, Buckets.grow, hrow, HeadRow.head_empty]
    have hloose : Stores { t with buckets := (t.buckets.grow fresh).2 }
        (HeapRow.release? Shape.headLayout t.buckets.grown t.delegate later) (fun _ => [])
        ((rows.all t.bucketCount).reverse ++ []) others := by
      refine (hk.perm ?_).stores_loose (fun c hc => h.carries_of_mem ?_) hempty
      · simp
      · simpa using hc
    have hplaced := hloose.place hasher
    rw [h.refs_eq, ← List.map_reverse]
    refine ⟨?_, ?_, hc.trans hc'⟩
    · simp only [List.reverse_reverse, List.append_nil, bucketCount, hcount] at hplaced
      exact hplaced
    · rw [bucketCount_place]
      exact hcount

/-- A table that was refused a larger array. -/
theorem Stores.redistribute_error (h : t.Stores heap rows [] others) {count : Nat}
    {e : MemoryError} (hr : t.redistribute count hasher heap = (.error e, t', heap')) :
    t' = t ∧ t.Stores heap' rows [] others ∧
      (Shape.headLayout.array? (count + 1) = none ∧ heap' = heap ∨
        heap.Continues heap' (some e)) := by
  unfold Table.redistribute at hr
  split at hr
  · next later ha =>
    cases hr
    obtain ⟨hl, hwhy⟩ := HeapRow.alloc_error h.keeps.lends ha
    exact ⟨rfl, h.rebase hl, hwhy⟩
  · cases hr

/-! ## Making room -/

/-- A table that made room for one more entry. -/
theorem Stores.makeRoom_ok (h : t.Stores heap rows [] others)
    (hr : t.makeRoom hasher heap = (.ok (), t', heap')) :
    ∃ rows', t'.Stores heap' rows' [] others ∧
      Rows.Regrouped hasher rows rows' t.bucketCount t'.bucketCount ∧
      heap.Continues heap' none := by
  unfold Table.makeRoom at hr
  split at hr
  · split at hr
    · cases hr
      exact ⟨rows, h.withGrowth _, .inl ⟨rfl, rfl⟩, .refl _⟩
    · next count growth hg =>
      split at hr
      · next grown later hd =>
        cases hr
        have h2 := (bounds_of_mem_primes _ (Growth.advise_mem_primes hg)).1
        obtain ⟨hs, hcount, hc⟩ := (h.withGrowth growth).redistribute_ok h2 hd
        exact ⟨_, hs, .inr (by rw [hcount]; rfl), hc⟩
      · cases hr
  · cases hr
    exact ⟨rows, h, .inl ⟨rfl, rfl⟩, .refl _⟩

/-- A table that was refused the memory to make room. -/
theorem Stores.makeRoom_error (h : t.Stores heap rows [] others) {e : MemoryError}
    (hr : t.makeRoom hasher heap = (.error e, t', heap')) :
    t'.Stores heap' rows [] others ∧ t'.bucketCount = t.bucketCount ∧ s.overflow = true ∧
      heap.Continues heap' (some e) := by
  unfold Table.makeRoom at hr
  split at hr
  · next ho =>
    split at hr
    · cases hr
    · next count growth hg =>
      split at hr
      · cases hr
      · next e' same later hd =>
        cases hr
        have hle := (bounds_of_mem_primes _ (Growth.advise_mem_primes hg)).2
        obtain ⟨rfl, hs, hwhy⟩ := (h.withGrowth growth).redistribute_error hd
        refine ⟨hs.withGrowth _, rfl, ho, hwhy.resolve_left ?_⟩
        intro hw
        rw [Shape.array?_headLayout hle] at hw
        cases hw.1
  · cases hr

end Table

end ArenaHash
