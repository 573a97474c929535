import ArenaHash.Proofs.Container.Storage

/-!
# Where entries are

From here on equal keys hash equally and hashes do not change. Then an entry is in the row of its
key's hash, and a lookup that sees this row only answers for the whole container.
-/

namespace ArenaHash

/-- A hash function that cannot tell equal keys apart. -/
def Hashing.Faithful {S K : Type} [BEq K] (f : S → K → UInt64) : Prop :=
  ∀ b k k', k == k' → f b k = f b k'

@[simp] theorem Hashing.key_ofFun {S K : Type} (f : S → K → UInt64) (b : S) (k : K) :
    (ofFun f).key b k = f b k := rfl

namespace Rows

variable {T : Type} {caching : Caching} {hashOf : T → UInt64} {hasher : Ref → T → UInt64}
  {count count' : Nat} {rows rows' : Rows T}

/-- Every cell is in the row of its hash and keeps what is to be kept of it. -/
def Placed (caching : Caching) (hashOf : T → UInt64) (count : Nat) (rows : Rows T) : Prop :=
  ∀ i, ∀ c ∈ rows i, c.hash = caching.keep (hashOf c.entry) ∧ (hashOf c.entry).toNat % count = i

theorem placed_nil : Placed caching hashOf count (fun _ => []) := nofun

theorem Placed.put (h : Placed caching hashOf count rows) {i : Nat} {cs : List (Cell T)}
    (hcs : ∀ c ∈ cs, c.hash = caching.keep (hashOf c.entry) ∧
      (hashOf c.entry).toNat % count = i) : Placed caching hashOf count (rows.put i cs) := by
  intro j c hc
  by_cases hj : j = i
  · subst hj
    rw [put_self] at hc
    exact hcs c hc
  · rw [put_of_ne _ hj] at hc
    exact h j c hc

/-- A new cell belongs in the row of its hash. -/
theorem Placed.put_new (h : Placed caching hashOf count rows) (q : Ref) (entry : T)
    {cs : List (Cell T)}
    (hcs : ∀ c ∈ cs, c = ⟨q, entry, caching.keep (hashOf entry)⟩ ∨
      c ∈ rows ((hashOf entry).toNat % count)) :
    Placed caching hashOf count (rows.put ((hashOf entry).toNat % count) cs) := by
  apply h.put
  intro c hc
  rcases hcs c hc with rfl | hc
  · exact ⟨rfl, rfl⟩
  · exact h _ c hc

theorem Placed.hashBy_eq (h : Placed caching hashOf count rows)
    (hhasher : ∀ q e, hasher q e = hashOf e) {i : Nat} {c : Cell T} (hc : c ∈ rows i) :
    c.hashBy hasher = hashOf c.entry := by
  rw [Cell.hashBy, (h i c hc).1, hhasher]
  cases caching <;> rfl

theorem Placed.regrouped (h : Placed caching hashOf count rows)
    (hhasher : ∀ q e, hasher q e = hashOf e) (hre : Regrouped hasher rows rows' count count') :
    Placed caching hashOf count' rows' := by
  rcases hre with ⟨rfl, rfl⟩ | rfl
  · exact h
  · intro i c hc
    obtain ⟨hm, hi⟩ := mem_group.mp hc
    obtain ⟨j, -, hj⟩ := rows.mem_all.mp hm
    exact ⟨(h j c hj).1, h.hashBy_eq hhasher hj ▸ hi⟩

/-- A cell matches if it has the key, whether it keeps a hash or not. -/
theorem Placed.isMatch_eq {S K V : Type} [BEq K] {f : S → K → UInt64} {builder : S}
    {rows : Rows (K × V)} (h : Placed caching (fun e => f builder e.1) count rows)
    (hf : Hashing.Faithful f) {k : K} {i : Nat} {c : Cell (K × V)} (hc : c ∈ rows i) :
    Cell.isMatch (f builder k) (Keyed.hasKey k) c = Keyed.hasKey k c.entry := by
  unfold Cell.isMatch
  cases hk : Keyed.hasKey k c.entry with
  | false => exact Bool.and_false _
  | true =>
    have hhash : c.hash = caching.keep (f builder c.entry.1) := (h i c hc).1
    rw [hhash, hf _ _ _ hk]
    cases caching <;> simp [Caching.keep]

end Rows

namespace Keyed

variable {s : Table.Shape} {K V A S : Type} [Allocator A] {f : S → K → UInt64}
  {c c' : Keyed s K V A S} {heap heap' : Heap A} {rows rows' : Rows (K × V)}
  {others others' : List (Loan A)}

/-- The container stores these rows, each entry where its key hashes to. -/
structure Placed (f : S → K → UInt64) (c : Keyed s K V A S) (heap : Heap A) (rows : Rows (K × V))
    (others : List (Loan A)) : Prop where
  stores : c.table.Stores heap rows [] others
  placed : rows.Placed s.caching (fun e => f c.builder e.1) c.table.bucketCount

theorem placed_new (builder : S) (delegate : A) (hl : heap.Lends others) :
    (new builder delegate : Keyed s K V A S).Placed f heap (fun _ => []) others :=
  ⟨Table.stores_new delegate hl, Rows.placed_nil⟩

/-- If what is put into a row has nothing new, no row has. -/
theorem tags_put {i : Nat} {cs : List (Cell (K × V))}
    (h : (cs.map Cell.tag).Sublist ((rows i).map Cell.tag)) (j : Nat) :
    ((rows.put i cs j).map Cell.tag).Sublist ((rows j).map Cell.tag) := by
  by_cases hj : j = i
  · rwa [hj, Rows.put_self]
  · rw [rows.put_of_ne hj]

namespace Placed

theorem toList_eq (h : c.Placed f heap rows others) :
    c.toList = (rows.all c.table.bucketCount).map Cell.entry := h.stores.toList_eq

theorem size_eq (h : c.Placed f heap rows others) : c.size = c.toList.length := by
  rw [h.toList_eq, List.length_map, size, h.stores.size_eq, List.append_nil]

theorem walk_eq (h : c.Placed f heap rows others) : c.walk c.size c.cursor = c.toList :=
  walked_eq h.stores

/-- Values may change and cells may go. -/
theorem of_tags (h : c.Placed f heap rows others) (c' : Keyed s K V A S)
    (hs : c'.table.Stores heap' rows' [] others') (hb : c'.builder = c.builder)
    (hcount : c'.table.bucketCount = c.table.bucketCount)
    (ht : ∀ i, ((rows' i).map Cell.tag).Sublist ((rows i).map Cell.tag)) :
    c'.Placed f heap' rows' others' where
  stores := hs
  placed i d hd := by
    obtain ⟨e, he, heq⟩ := List.mem_map.mp ((ht i).mem (List.mem_map_of_mem hd))
    obtain ⟨hkey, hhash⟩ := Prod.mk.inj heq
    have hp : e.hash = s.caching.keep (f c.builder e.entry.1) ∧
        (f c.builder e.entry.1).toNat % c.table.bucketCount = i := h.placed i e he
    rw [hhash, hkey] at hp
    rw [hb, hcount]
    exact hp

section Lookup

variable [BEq K] (hf : Hashing.Faithful f) (h : c.Placed f heap rows others) {k : K}
include hf h

/-- Whether a lookup stops at a cell is up to the key alone. -/
theorem isFor_eq {i : Nat} {cell : Cell (K × V)} (hc : cell ∈ rows i) :
    c.isFor (.ofFun f) k cell = hasKey k cell.entry :=
  h.placed.isMatch_eq hf hc

theorem bucketOf_eq {i : Nat} {cell : Cell (K × V)} (hc : cell ∈ rows i)
    (hk : hasKey k cell.entry) : c.bucketOf (.ofFun f) k = i := by
  have hi : (f c.builder cell.entry.1).toNat % c.table.bucketCount = i := (h.placed i cell hc).2
  rwa [hf _ _ _ hk] at hi

/-- A key has no entries outside its row. -/
theorem unmatched {j : Nat} (hj : j ≠ c.bucketOf (.ofFun f) k) :
    ∀ cell ∈ rows j, !hasKey k cell.entry := by
  intro cell hc
  rw [Bool.not_eq_true_eq_eq_false, ← Bool.not_eq_true]
  exact fun hk => hj (h.bucketOf_eq hf hc hk).symm

theorem unmatched_before : ∀ cell ∈ rows.before (c.bucketOf (.ofFun f) k),
    !hasKey k cell.entry := by
  intro cell hc
  obtain ⟨j, hj, hc⟩ := List.mem_flatMap.mp hc
  exact h.unmatched hf (Nat.ne_of_lt (List.mem_range.mp hj)) cell hc

theorem unmatched_after : ∀ cell ∈ rows.after (c.bucketOf (.ofFun f) k) c.table.bucketCount,
    !hasKey k cell.entry := by
  intro cell hc
  obtain ⟨j, hj, hc⟩ := List.mem_flatMap.mp hc
  have hlt := (List.mem_range'_1.mp hj).1
  exact h.unmatched hf (by omega) cell hc

/-- The cells with a key are those in its row. -/
theorem filter_all : (rows.all c.table.bucketCount).filter (fun cell => hasKey k cell.entry) =
    (rows (c.bucketOf (.ofFun f) k)).filter fun cell => hasKey k cell.entry := by
  have hnone : ∀ cs : List (Cell (K × V)), (∀ cell ∈ cs, !hasKey k cell.entry) →
      cs.filter (fun cell => hasKey k cell.entry) = [] := fun cs hcs => by
    simpa [List.filter_eq_nil_iff] using hcs
  rw [rows.all_eq (h.stores.bucketOf_lt _), List.filter_append, List.filter_append, ← bucketOf,
    hnone _ (h.unmatched_before hf), hnone _ (h.unmatched_after hf), List.nil_append,
    List.append_nil]

/-- The entries with a key are those in its row. -/
theorem filter_toList : c.toList.filter (hasKey k) =
    ((rows (c.bucketOf (.ofFun f) k)).map Cell.entry).filter (hasKey k) := by
  rw [h.toList_eq, List.filter_map, List.filter_map]
  exact congrArg _ (h.filter_all hf)

end Lookup

end Placed

/-! ## Lookups -/

section Hit

variable [BEq K] {k : K} {pre post : List (Cell (K × V))} {cell : Cell (K × V)}

/-- A lookup of `k` stops at `cell`, which is the first one with the key. -/
structure Hit (f : S → K → UInt64) (c : Keyed s K V A S) (rows : Rows (K × V)) (k : K)
    (pre : List (Cell (K × V))) (cell : Cell (K × V)) (post : List (Cell (K × V))) : Prop where
  row : rows (c.bucketOf (.ofFun f) k) = pre ++ cell :: post
  hasKey : hasKey k cell.entry
  unmatched : ∀ d ∈ rows.before (c.bucketOf (.ofFun f) k) ++ pre, !Keyed.hasKey k d.entry
  find? : c.find? (.ofFun f) k = some cell.ref
  locate? : c.locate? (.ofFun f) k = some (cell.ref, cell.entry)

/-- A lookup misses, and then no entry has the key, or it stops at the first entry that has. -/
theorem Placed.hit_or_miss (hf : Hashing.Faithful f) (h : c.Placed f heap rows others) (k : K) :
    (∀ e ∈ c.toList, !hasKey k e) ∧ c.find? (.ofFun f) k = none ∧
        c.locate? (.ofFun f) k = none ∨
      ∃ pre cell post, c.Hit f rows k pre cell post := by
  rcases Keyed.lookup_cases (.ofFun f) h.stores k with
    ⟨hnone, hfind, hlocate⟩ | ⟨pre, cell, post, hrow, hpre, hc, hfind, hlocate⟩
  · refine .inl ⟨?_, hfind, hlocate⟩
    intro e he
    rw [h.toList_eq] at he
    obtain ⟨d, hd, rfl⟩ := List.mem_map.mp he
    obtain ⟨j, -, hd⟩ := rows.mem_all.mp hd
    by_cases hj : j = c.bucketOf (.ofFun f) k
    · subst hj
      have hd' := List.find?_eq_none.mp hnone d hd
      rw [h.isFor_eq hf hd] at hd'
      simpa using hd'
    · exact h.unmatched hf hj d hd
  · have hmem : ∀ d ∈ pre ++ [cell], d ∈ rows (c.bucketOf (.ofFun f) k) := fun d hd => by
      rw [hrow, List.append_cons]
      exact List.mem_append_left _ hd
    refine .inr ⟨pre, cell, post, hrow, ?_, ?_, hfind, hlocate⟩
    · rw [← h.isFor_eq hf (hmem cell (by simp))]
      exact hc
    · intro d hd
      rcases List.mem_append.mp hd with hd | hd
      · exact h.unmatched_before hf d hd
      · rw [← h.isFor_eq hf (hmem d (List.mem_append_left _ hd))]
        exact hpre d hd

theorem Placed.erase_of_miss (h : c.Placed f heap rows others)
    (hfind : c.find? (.ofFun f) k = none) : c.erase (.ofFun f) k heap = (none, c, heap) := by
  have hrow : c.find? (.ofFun f) k =
      ((rows (c.bucketOf (.ofFun f) k)).find? (c.isFor (.ofFun f) k)).map Cell.ref :=
    h.stores.find?_eq _ _
  rw [hfind, eq_comm, Option.map_eq_none_iff] at hrow
  simp only [erase, h.stores.erase_of_none hrow]

namespace Hit

/-- The entries before the one found. -/
def left (f : S → K → UInt64) (c : Keyed s K V A S) (rows : Rows (K × V)) (k : K)
    (pre : List (Cell (K × V))) : List (K × V) :=
  (rows.before (c.bucketOf (.ofFun f) k) ++ pre).map Cell.entry

/-- The entries after the one found. -/
def right (f : S → K → UInt64) (c : Keyed s K V A S) (rows : Rows (K × V)) (k : K)
    (post : List (Cell (K × V))) : List (K × V) :=
  (post ++ rows.after (c.bucketOf (.ofFun f) k) c.table.bucketCount).map Cell.entry

omit [BEq K] in
/-- The entries when the row of a key is edited. -/
theorem entries_put (h : c.Placed f heap rows others) (k : K) (pre ds post : List (Cell (K × V))) :
    ((rows.put (c.bucketOf (.ofFun f) k) (pre ++ ds ++ post)).all c.table.bucketCount).map
        Cell.entry =
      left f c rows k pre ++ ds.map Cell.entry ++ right f c rows k post := by
  have hi : c.bucketOf (.ofFun f) k < c.table.bucketCount := h.stores.bucketOf_lt _
  rw [rows.all_put hi]
  simp only [left, right, List.map_append, List.append_assoc]

variable (hit : c.Hit f rows k pre cell post)
include hit

omit [Allocator A] in
theorem left_unmatched : ∀ e ∈ left f c rows k pre, !Keyed.hasKey k e := by
  intro e he
  obtain ⟨d, hd, rfl⟩ := List.mem_map.mp he
  exact hit.unmatched d hd

variable (h : c.Placed f heap rows others)
include h

theorem toList_eq : c.toList = left f c rows k pre ++ cell.entry :: right f c rows k post := by
  have hput := entries_put h k pre [cell] post
  rw [List.append_assoc, List.singleton_append, ← hit.row, rows.put_eq] at hput
  rw [h.toList_eq, hput]
  simp

theorem find?_toList : c.toList.find? (Keyed.hasKey k) = some cell.entry := by
  rw [hit.toList_eq h, List.find?_append, List.find?_eq_none.mpr fun e he => by
    simpa using hit.left_unmatched e he, Option.none_or, List.find?_cons_of_pos hit.hasKey]

/-- The entry that was found may be overwritten by one with an equal key. -/
theorem set (hf : Hashing.Faithful f) (entry : K × V) (hk : entry.1 == k) :
    Placed f { c with table := c.table.setEntry cell.ref entry } heap
        (rows.put (c.bucketOf (.ofFun f) k) (pre ++ [{ cell with entry }] ++ post)) others ∧
      toList { c with table := c.table.setEntry cell.ref entry } =
        left f c rows k pre ++ entry :: right f c rows k post := by
  have hs := h.stores.setEntry hit.row entry
  have hcell : cell ∈ rows (c.bucketOf (.ofFun f) k) := by simp [hit.row]
  have hp : Placed f { c with table := c.table.setEntry cell.ref entry } heap
      (rows.put (c.bucketOf (.ofFun f) k) (pre ++ [{ cell with entry }] ++ post)) others := by
    refine ⟨by rwa [← List.append_cons], h.placed.put ?_⟩
    intro d hd
    simp only [List.append_assoc, List.singleton_append, List.mem_append, List.mem_cons] at hd
    rcases hd with hd | rfl | hd
    · exact h.placed _ d (by simp [hit.row, hd])
    · have hhash : f c.builder cell.entry.1 = f c.builder entry.1 :=
        (hf _ _ _ hit.hasKey).trans (hf _ _ _ hk).symm
      have hold : cell.hash = s.caching.keep (f c.builder cell.entry.1) ∧
          (f c.builder cell.entry.1).toNat % c.table.bucketCount = c.bucketOf (.ofFun f) k :=
        h.placed _ cell hcell
      rwa [hhash] at hold
    · exact h.placed _ d (by simp [hit.row, hd])
  refine ⟨hp, ?_⟩
  rw [hp.toList_eq]
  exact (entries_put h k pre [{ cell with entry }] post).trans (List.append_assoc _ _ _)

/-- Erasing takes out the entry that was found. -/
theorem erase (hf : Hashing.Faithful f) :
    ∃ c' heap', c.erase (.ofFun f) k heap = (some cell.entry, c', heap') ∧
      c'.builder = c.builder ∧
      c'.Placed f heap' (rows.put (c.bucketOf (.ofFun f) k) (pre ++ post)) others ∧
      c'.toList = left f c rows k pre ++ right f c rows k post ∧
      c.table.Returned heap [cell.ref] c'.table heap' := by
  have hmem : ∀ d ∈ pre ++ cell :: post, d ∈ rows (c.bucketOf (.ofFun f) k) := by
    rw [hit.row]
    exact fun d hd => hd
  have hpre : ∀ d ∈ pre, !c.isFor (.ofFun f) k d := fun d hd => by
    rw [h.isFor_eq hf (hmem d (List.mem_append_left _ hd))]
    exact hit.unmatched d (List.mem_append_right _ hd)
  have hc : c.isFor (.ofFun f) k cell := by
    rw [h.isFor_eq hf (hmem cell (by simp))]
    exact hit.hasKey
  obtain ⟨t', heap', hrun, hs, hcount, hreturned⟩ := h.stores.erase_of_first hit.row hpre hc
  have hp : Placed f { c with table := t' } heap'
      (rows.put (c.bucketOf (.ofFun f) k) (pre ++ post)) others := by
    refine h.of_tags _ hs rfl hcount (tags_put ?_)
    rw [hit.row]
    exact (List.Sublist.append_left (List.sublist_cons_self _ _) _).map _
  refine ⟨{ c with table := t' }, heap', by simp only [Keyed.erase, hrun], rfl, hp, ?_, hreturned⟩
  have hput := entries_put h k pre [] post
  rw [List.append_nil, List.map_nil, List.append_nil] at hput
  rw [hp.toList_eq, ← hput]
  exact congrArg (fun count => ((rows.put _ _).all count).map Cell.entry) hcount

end Hit

end Hit

end Keyed

end ArenaHash
