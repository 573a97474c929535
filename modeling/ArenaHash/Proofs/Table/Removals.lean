import ArenaHash.Proofs.Table.Returns

/-!
# Removals

What operations that take cells out of rows leave there: `erase` takes the first match out of its
row, `eraseAll` every match, `filter` whatever the filter rejects, and `clear` everything. The
nodes taken out are returned to the pool one after the other (`Returned`), so nothing is loose
afterwards.
-/

namespace ArenaHash

namespace Table

variable {s : Shape} {T A : Type} [Allocator A] {t : Table s T A} {heap : Heap A}
  {rows : Rows T} {loose : List (Cell T)} {others : List (Loan A)}

@[simp] theorem bucketCount_unlink (t : Table s T A) (i : Nat) (prev : Option Ref) (q : Ref)
    (heap : Heap A) : (t.unlink i prev q heap).1.bucketCount = t.bucketCount := by
  cases prev <;> simp [unlink]

/-- What a table stores can be read. -/
theorem Stores.isSome_read (h : t.Stores heap rows loose others) {i : Nat} {c : Cell T}
    (hc : c ∈ rows i) : (t.nodes.read c.ref).isSome := by
  obtain ⟨next, hn⟩ := (h.chains i).carries hc
  rw [hn]
  rfl

/-! ## Erasing -/

section Seek

variable {test : Ref → Bool} {p : Cell T → Bool}

theorem seek_congr {test' : Ref → Bool} {qs : List Ref} (h : ∀ q ∈ qs, test q = test' q)
    (prev : Option Ref) : seek test prev qs = seek test' prev qs := by
  induction qs generalizing prev with
  | nil => rfl
  | cons q qs ih =>
    rw [seek, seek, h q List.mem_cons_self, ih fun r hr => h r (List.mem_cons_of_mem q hr)]

/-- Both nodes that are found are of the chain. -/
theorem mem_of_seek {qs : List Ref} {prev prev' : Option Ref} {q : Ref}
    (h : seek test prev qs = some (prev', q)) : q ∈ qs ∧ ∀ r ∈ prev', r ∈ prev ∨ r ∈ qs := by
  induction qs generalizing prev with
  | nil => cases h
  | cons x qs ih =>
    rw [seek] at h
    split at h
    · cases h
      exact ⟨List.mem_cons_self, fun r hr => .inl hr⟩
    · obtain ⟨hq, hprev⟩ := ih h
      refine ⟨List.mem_cons_of_mem x hq, fun r hr => .inr ?_⟩
      rcases hprev r hr with hx | hr
      · cases hx
        exact List.mem_cons_self
      · exact List.mem_cons_of_mem x hr

theorem seek_of_none : ∀ {cs : List (Cell T)}, (∀ c ∈ cs, test c.ref = p c) →
    cs.find? p = none → ∀ prev, seek test prev (cs.map Cell.ref) = none
  | [], _, _, _ => rfl
  | c :: cs, heq, hnone, prev => by
    have hc : p c = false := by simpa using List.find?_eq_none.mp hnone c List.mem_cons_self
    rw [List.map_cons, seek, heq c List.mem_cons_self, hc]
    refine seek_of_none (fun d hd => heq d (List.mem_cons_of_mem _ hd)) ?_ _
    simpa [hc] using hnone

/-- The search stops at the first match and answers the cell before it. -/
theorem seek_of_first {c : Cell T} {post : List (Cell T)} :
    ∀ {pre : List (Cell T)} (before : List (Cell T)),
      (∀ d ∈ pre ++ c :: post, test d.ref = p d) → (∀ d ∈ pre, !p d) → p c →
        seek test (before.getLast?.map Cell.ref) ((pre ++ c :: post).map Cell.ref) =
          some ((before ++ pre).getLast?.map Cell.ref, c.ref)
  | [], before, heq, _, hc => by
    rw [List.nil_append, List.map_cons, seek, heq c (by simp), hc, List.append_nil]
    rfl
  | d :: pre, before, heq, hpre, hc => by
    have hd : p d = false := by simpa using hpre d List.mem_cons_self
    have ih := seek_of_first (before ++ [d]) (fun b hb => heq b (List.mem_cons_of_mem _ hb))
      (fun b hb => hpre b (List.mem_cons_of_mem _ hb)) hc
    rw [List.getLast?_concat, List.append_assoc] at ih
    rw [List.cons_append, List.map_cons, seek, heq d (by simp), hd]
    exact ih

end Seek

namespace Stores

variable {hash : UInt64} {test : T → Bool}

theorem erase_of_none (h : t.Stores heap rows [] others)
    (hnone : (rows (t.bucketOf hash)).find? (Cell.isMatch hash test) = none) :
    t.erase hash test heap = (none, t, heap) := by
  unfold Table.erase
  simp only [h.chain_eq, seek_of_none (h.matches_row hash test _) hnone]

/-- The first match is taken out of its row. -/
theorem erase_of_first (h : t.Stores heap rows [] others) {pre post : List (Cell T)} {c : Cell T}
    (hrow : rows (t.bucketOf hash) = pre ++ c :: post)
    (hpre : ∀ d ∈ pre, !Cell.isMatch hash test d) (hc : Cell.isMatch hash test c) :
    ∃ t' heap', t.erase hash test heap = (some c.entry, t', heap') ∧
      t'.Stores heap' (rows.put (t.bucketOf hash) (pre ++ post)) [] others ∧
      t'.bucketCount = t.bucketCount ∧ t.Returned heap [c.ref] t' heap' := by
  have hmatch := h.matches_row hash test (t.bucketOf hash)
  have hentry : t.entryAt? c.ref = some c.entry :=
    h.entryAt?_eq (h.mem_cells (i := t.bucketOf hash) (by simp [hrow]))
  rw [hrow] at hmatch
  refine ⟨_, _, ?_, h.unlink hrow, bucketCount_unlink _ _ _ _ _,
    .unlink (h.isSome_read (i := t.bucketOf hash) (by simp [hrow])) _ _ _⟩
  unfold Table.erase
  have hseek := seek_of_first [] hmatch hpre hc
  rw [List.nil_append] at hseek
  simp only [h.chain_eq, hrow]
  rw [show (none : Option Ref) = ([] : List (Cell T)).getLast?.map Cell.ref from rfl, hseek]
  simp only [hentry]

/-- With enough steps allowed, every match is taken out of its row. -/
theorem eraseUpTo (h : t.Stores heap rows [] others) {limit : Nat}
    (hlimit : (rows (t.bucketOf hash)).countP (Cell.isMatch hash test) ≤ limit) :
    ∃ t' heap', Table.eraseUpTo hash test limit t heap =
        ((rows (t.bucketOf hash)).countP (Cell.isMatch hash test), t', heap') ∧
      t'.Stores heap' (rows.put (t.bucketOf hash)
        ((rows (t.bucketOf hash)).filter (!Cell.isMatch hash test ·))) [] others ∧
      t'.bucketCount = t.bucketCount := by
  induction limit generalizing t heap rows with
  | zero =>
    have hzero := Nat.le_zero.mp hlimit
    have hkeep : (rows (t.bucketOf hash)).filter (!Cell.isMatch hash test ·) =
        rows (t.bucketOf hash) := by
      simpa [List.countP_eq_zero] using hzero
    exact ⟨t, heap, by rw [hzero]; rfl, by rw [hkeep, Rows.put_eq]; exact h, rfl⟩
  | succ limit ih =>
    cases hf : (rows (t.bucketOf hash)).find? (Cell.isMatch hash test) with
    | none =>
      have hnone := List.find?_eq_none.mp hf
      have hkeep : (rows (t.bucketOf hash)).filter (!Cell.isMatch hash test ·) =
          rows (t.bucketOf hash) := by
        simpa using hnone
      have hzero : (rows (t.bucketOf hash)).countP (Cell.isMatch hash test) = 0 :=
        List.countP_eq_zero.mpr hnone
      refine ⟨t, heap, ?_, by rw [hkeep, Rows.put_eq]; exact h, rfl⟩
      simp only [Table.eraseUpTo, h.erase_of_none hf, hzero]
    | some c =>
      obtain ⟨hc, pre, post, hrow, hpre⟩ := List.find?_eq_some_iff_append.mp hf
      obtain ⟨t₁, heap₁, herase, hs, hcount, -⟩ := h.erase_of_first hrow hpre hc
      have hbucket : t₁.bucketOf hash = t.bucketOf hash := by rw [bucketOf, hcount]; rfl
      have hless : (pre ++ post).countP (Cell.isMatch hash test) + 1 =
          (rows (t.bucketOf hash)).countP (Cell.isMatch hash test) := by
        rw [hrow, List.countP_append, List.countP_append, List.countP_cons_of_pos hc]
        omega
      have hih := ih hs
      rw [hbucket, Rows.put_self] at hih
      obtain ⟨t₂, heap₂, hrest, hs₂, hcount₂⟩ := hih (by omega)
      refine ⟨t₂, heap₂, ?_, ?_, hcount₂.trans hcount⟩
      · simp only [Table.eraseUpTo, herase, hrest, hless]
      · rw [Rows.put_put] at hs₂
        rw [hrow]
        simpa [hc] using hs₂

theorem eraseAll (h : t.Stores heap rows [] others) (hash : UInt64) (test : T → Bool) :
    ∃ t' heap', t.eraseAll hash test heap =
        ((rows (t.bucketOf hash)).countP (Cell.isMatch hash test), t', heap') ∧
      t'.Stores heap' (rows.put (t.bucketOf hash)
        ((rows (t.bucketOf hash)).filter (!Cell.isMatch hash test ·))) [] others ∧
      t'.bucketCount = t.bucketCount :=
  h.eraseUpTo (Nat.le_trans List.countP_le_length (h.length_row_le _))

end Stores

/-! ## Filtering -/

/-- What a filter makes of a list of cells. -/
def keepCells {σ : Type} (keep : σ → T → Bool × T × σ) : σ → List (Cell T) → σ × List (Cell T)
  | state, [] => (state, [])
  | state, c :: cs =>
    let (kept, entry, state) := keep state c.entry
    let (state, rest) := keepCells keep state cs
    (state, if kept then { c with entry } :: rest else rest)

/-- The slots of the cells that a filter rejects. -/
def droppedRefs {σ : Type} (keep : σ → T → Bool × T × σ) : σ → List (Cell T) → List Ref
  | _, [] => []
  | state, c :: cs =>
    let (kept, _, state) := keep state c.entry
    let rest := droppedRefs keep state cs
    if kept then rest else c.ref :: rest

/-- What a filter makes of the rows of some buckets. -/
def keepRows {σ : Type} (keep : σ → T → Bool × T × σ) : σ → Rows T → List Nat → σ × Rows T
  | state, rows, [] => (state, rows)
  | state, rows, i :: is =>
    let (state, cs) := keepCells keep state (rows i)
    keepRows keep state (rows.put i cs) is

/-- A row that is not listed may be replaced. -/
theorem Rows.flatMap_put {rows : Rows T} {i : Nat} {is : List Nat} (hi : i ∉ is)
    (cs : List (Cell T)) : is.flatMap (rows.put i cs) = is.flatMap rows :=
  List.flatMap_congr fun _ hj => rows.put_of_ne (ne_of_mem_of_not_mem hj hi) cs

section Filter

variable {σ : Type} {keep : σ → T → Bool × T × σ}

/-- A node is taken out after its entry was overwritten. -/
theorem Stores.setEntry_unlink (h : t.Stores heap rows loose others) {i : Nat}
    {pre post : List (Cell T)} {c : Cell T} (hrow : rows i = pre ++ c :: post) (entry : T) :
    ((t.setEntry c.ref entry).unlink i (pre.getLast?.map Cell.ref) c.ref heap).1.Stores
      ((t.setEntry c.ref entry).unlink i (pre.getLast?.map Cell.ref) c.ref heap).2
      (rows.put i (pre ++ post)) loose others := by
  have hrow' : rows.put i (pre ++ { c with entry } :: post) i = pre ++ { c with entry } :: post :=
    Rows.put_self _ _ _
  have hunlink := (h.setEntry hrow entry).unlink hrow'
  rwa [Rows.put_put] at hunlink

/-- The cells before the part of the row that is filtered stay. -/
theorem Stores.filterChain (keep : σ → T → Bool × T × σ) {i : Nat} {cs : List (Cell T)} :
    ∀ {t : Table s T A} {heap : Heap A} {rows : Rows T} {pre : List (Cell T)} (state : σ),
      t.Stores heap rows loose others → rows i = pre ++ cs →
        ∃ t' heap', Table.filterChain keep i (cs.map Cell.ref) (pre.getLast?.map Cell.ref) state
            t heap = ((keepCells keep state cs).1, t', heap') ∧
          t'.Stores heap' (rows.put i (pre ++ (keepCells keep state cs).2)) loose others ∧
          t'.bucketCount = t.bucketCount ∧
          t.Returned heap (droppedRefs keep state cs) t' heap' := by
  induction cs with
  | nil =>
    intro t heap rows pre state h hrow
    exact ⟨t, heap, rfl, by rw [keepCells, ← hrow, Rows.put_eq]; exact h, rfl, .refl t heap⟩
  | cons c cs ih =>
    intro t heap rows pre state h hrow
    have hentry : t.entryAt? c.ref = some c.entry :=
      h.entryAt?_eq (h.mem_cells (i := i) (by simp [hrow]))
    obtain ⟨kept, entry, state', hkeep⟩ :
        ∃ kept entry state', keep state c.entry = (kept, entry, state') := ⟨_, _, _, rfl⟩
    have hset := h.setEntry hrow entry
    have hreturned : t.Returned heap [] (t.setEntry c.ref entry) heap := .modify t c.ref _ heap
    cases kept with
    | true =>
      have hrow' : rows.put i (pre ++ { c with entry } :: cs) i =
          (pre ++ [{ c with entry }]) ++ cs := by simp
      obtain ⟨t', heap', hrun, hs, hcount, hrest⟩ := ih state' hset hrow'
      rw [List.getLast?_concat] at hrun
      refine ⟨t', heap', ?_, ?_, hcount, ?_⟩
      · simp only [List.map_cons, Table.filterChain, hentry, hkeep, if_true, keepCells]
        exact hrun
      · simpa [keepCells, hkeep] using hs
      · simpa [droppedRefs, hkeep] using hreturned.trans hrest
    | false =>
      have hread : ((t.setEntry c.ref entry).nodes.read c.ref).isSome :=
        hset.isSome_read (i := i) (c := { c with entry }) (by simp)
      obtain ⟨t', heap', hrun, hs, hcount, hrest⟩ :=
        ih state' (h.setEntry_unlink hrow entry) (Rows.put_self _ _ _)
      refine ⟨t', heap', ?_, ?_, ?_, ?_⟩
      · simp only [List.map_cons, Table.filterChain, hentry, hkeep, keepCells]
        exact hrun
      · simpa [keepCells, hkeep] using hs
      · rw [hcount, bucketCount_unlink]
        rfl
      · have hgone := hreturned.trans
          (.unlink hread i (pre.getLast?.map Cell.ref) heap)
        simpa [droppedRefs, hkeep] using hgone.trans hrest

theorem droppedRefs_append (state : σ) (cs ds : List (Cell T)) :
    droppedRefs keep state (cs ++ ds) =
      droppedRefs keep state cs ++ droppedRefs keep (keepCells keep state cs).1 ds := by
  induction cs generalizing state with
  | nil => rfl
  | cons c cs ih =>
    simp only [List.cons_append, droppedRefs, keepCells, ih]
    split <;> rfl

theorem Stores.filter (h : t.Stores heap rows [] others) (keep : σ → T → Bool × T × σ)
    (state : σ) :
    ∃ t' heap', t.filter keep state heap =
        ((keepRows keep state rows (List.range t.bucketCount)).1, t', heap') ∧
      t'.Stores heap' (keepRows keep state rows (List.range t.bucketCount)).2 [] others ∧
      t'.bucketCount = t.bucketCount ∧
      t.Returned heap (droppedRefs keep state (rows.all t.bucketCount)) t' heap' := by
  have hn : (List.range t.bucketCount).Nodup := List.nodup_range
  unfold Table.filter Rows.all
  generalize List.range t.bucketCount = is at hn
  induction is generalizing t heap rows state with
  | nil => exact ⟨t, heap, rfl, h, rfl, .refl t heap⟩
  | cons i is ih =>
    obtain ⟨hi, hn⟩ := List.nodup_cons.mp hn
    obtain ⟨t₁, heap₁, hrun, hs, hcount, hgone⟩ :=
      h.filterChain keep state (List.nil_append (rows i)).symm
    obtain ⟨t₂, heap₂, hrest, hs₂, hcount₂, hgone₂⟩ :=
      ih hs (keepCells keep state (rows i)).1 hn
    refine ⟨t₂, heap₂, ?_, hs₂, hcount₂.trans hcount, ?_⟩
    · rw [← h.chain_eq] at hrun
      rw [List.foldl_cons]
      exact (congrArg (List.foldl _ · is) hrun).trans hrest
    · rw [Rows.flatMap_put hi] at hgone₂
      rw [List.flatMap_cons, droppedRefs_append]
      exact hgone.trans hgone₂

theorem keepCells_append (state : σ) (cs ds : List (Cell T)) :
    keepCells keep state (cs ++ ds) =
      ((keepCells keep (keepCells keep state cs).1 ds).1,
        (keepCells keep state cs).2 ++ (keepCells keep (keepCells keep state cs).1 ds).2) := by
  induction cs generalizing state with
  | nil => rfl
  | cons c cs ih =>
    simp only [List.cons_append, keepCells, ih]
    split <;> rfl

/-- A filter leaves the rows of other buckets. -/
theorem keepRows_of_notMem (state : σ) (rows : Rows T) {is : List Nat} {j : Nat} (hj : j ∉ is) :
    (keepRows keep state rows is).2 j = rows j := by
  induction is generalizing state rows with
  | nil => rfl
  | cons i is ih =>
    rw [List.mem_cons, not_or] at hj
    exact (ih _ _ hj.2).trans (rows.put_of_ne hj.1 _)

/-- Filtering row by row is filtering all cells. -/
theorem keepRows_eq (keep : σ → T → Bool × T × σ) (state : σ) (rows : Rows T) {is : List Nat}
    (hn : is.Nodup) :
    ((keepRows keep state rows is).1, is.flatMap (keepRows keep state rows is).2) =
      keepCells keep state (is.flatMap rows) := by
  induction is generalizing state rows with
  | nil => rfl
  | cons i is ih =>
    obtain ⟨hi, hn⟩ := List.nodup_cons.mp hn
    have hself : (keepRows keep (keepCells keep state (rows i)).1
        (rows.put i (keepCells keep state (rows i)).2) is).2 i = _ := keepRows_of_notMem _ _ hi
    have hih := ih (keepCells keep state (rows i)).1
      (rows.put i (keepCells keep state (rows i)).2) hn
    rw [Rows.flatMap_put hi] at hih
    rw [Rows.put_self] at hself
    rw [List.flatMap_cons, List.flatMap_cons, keepCells_append, keepRows, hself, ← hih]

/-- Each row is filtered, from some state of the filter on. -/
theorem keepRows_row (keep : σ → T → Bool × T × σ) (state : σ) (rows : Rows T) {is : List Nat}
    (hn : is.Nodup) {i : Nat} (hi : i ∈ is) :
    ∃ state', (keepRows keep state rows is).2 i = (keepCells keep state' (rows i)).2 := by
  induction is generalizing state rows with
  | nil => cases hi
  | cons j is ih =>
    obtain ⟨hj, hn⟩ := List.nodup_cons.mp hn
    rcases List.mem_cons.mp hi with rfl | hi
    · exact ⟨state, (keepRows_of_notMem _ _ hj).trans (Rows.put_self _ _ _)⟩
    · obtain ⟨state', hs⟩ := ih (keepCells keep state (rows j)).1
        (rows.put j (keepCells keep state (rows j)).2) hn hi
      rw [rows.put_of_ne (ne_of_mem_of_not_mem hi hj)] at hs
      exact ⟨state', hs⟩

end Filter

/-! ## Emptying -/

namespace Stores

/-- The nodes of some loose cells are returned one after the other. -/
theorem freeNodes {cs : List (Cell T)} (h : t.Stores heap rows (cs ++ loose) others) :
    ∃ t' heap', (cs.map Cell.ref).foldl (fun (t, heap) q => t.freeNode q heap) (t, heap) =
        (t', heap') ∧
      t'.Stores heap' rows loose others ∧ t'.bucketCount = t.bucketCount ∧
      t.Returned heap (cs.map Cell.ref) t' heap' := by
  induction cs generalizing t heap with
  | nil => exact ⟨t, heap, rfl, h, rfl, .refl t heap⟩
  | cons c cs ih =>
    have hread : (t.nodes.read c.ref).isSome := by
      obtain ⟨next, hn⟩ := h.carries c List.mem_cons_self
      rw [hn]
      rfl
    obtain ⟨t', heap', hrun, hs, hcount, hrest⟩ := ih h.freeNode
    exact ⟨t', heap', hrun, hs, hcount, (Returned.freeNode hread heap).trans hrest⟩

theorem clearBucket (h : t.Stores heap rows [] others) {i : Nat} (hi : i < t.bucketCount) :
    ∃ t' heap', t.clearBucket i heap = (t', heap') ∧
      t'.Stores heap' (rows.put i []) [] others ∧ t'.bucketCount = t.bucketCount ∧
      t.Returned heap ((rows i).map Cell.ref) t' heap' := by
  have hs : (t.setHead i none).Stores heap (rows.put i []) (rows i ++ []) others :=
    h.setHead hi rfl (.refl _)
  obtain ⟨t', heap', hrun, hs', hcount, hrest⟩ := hs.freeNodes
  rw [← h.chain_eq] at hrun
  exact ⟨t', heap', hrun, hs', hcount.trans (bucketCount_setHead _ _ _),
    (Returned.setHead t i none heap).trans hrest⟩

theorem clear (h : t.Stores heap rows [] others) :
    ∃ t' heap', t.clear heap = (t', heap') ∧ t'.Stores heap' (fun _ => []) [] others ∧
      t'.bucketCount = t.bucketCount ∧ t.Returned heap t.refs t' heap' := by
  -- After the buckets of `is` are cleared their rows are empty and the others are as before.
  have hfold : ∀ (is : List Nat) {t : Table s T A} {heap : Heap A} {rows : Rows T}, is.Nodup →
      (∀ i ∈ is, i < t.bucketCount) → t.Stores heap rows [] others →
        ∃ t' heap', is.foldl (fun (t, heap) i => t.clearBucket i heap) (t, heap) = (t', heap') ∧
          t'.Stores heap' (fun i => if i ∈ is then [] else rows i) [] others ∧
          t'.bucketCount = t.bucketCount ∧
          t.Returned heap ((is.flatMap rows).map Cell.ref) t' heap' := by
    intro is
    induction is with
    | nil => exact fun _ _ h => ⟨_, _, rfl, by simpa using h, rfl, .refl _ _⟩
    | cons i is ih =>
      intro t heap rows hn his h
      obtain ⟨hi, hn⟩ := List.nodup_cons.mp hn
      obtain ⟨t₁, heap₁, hrun, hs, hcount, hgone⟩ := h.clearBucket (his i List.mem_cons_self)
      obtain ⟨t₂, heap₂, hrest, hs₂, hcount₂, hgone₂⟩ :=
        ih hn (fun j hj => hcount ▸ his j (List.mem_cons_of_mem _ hj)) hs
      rw [Rows.flatMap_put hi] at hgone₂
      refine ⟨t₂, heap₂, ?_, ?_, hcount₂.trans hcount, ?_⟩
      · rw [List.foldl_cons]
        exact (congrArg (List.foldl _ · is) hrun).trans hrest
      · convert hs₂ using 1
        funext j
        by_cases hj : j = i <;> simp [Rows.put, hj]
      · rw [List.flatMap_cons, List.map_append]
        exact hgone.trans hgone₂
  obtain ⟨t', heap', hrun, hs, hcount, hgone⟩ :=
    hfold (List.range t.bucketCount) List.nodup_range (fun i hi => List.mem_range.mp hi) h
  refine ⟨t', heap', hrun, ?_, hcount, h.refs_eq ▸ hgone⟩
  convert hs using 1
  funext i
  split
  · rfl
  · next hi => exact (h.row_eq_nil (by simpa using hi)).symm

end Stores

/-- Going back to the inline array returns the grown one. -/
theorem Keeps.shrink {live : List Ref} (h : t.Keeps heap live others) :
    (t.shrink heap).1.Keeps (t.shrink heap).2 live others := by
  have hl : heap.Lends (t.buckets.loans Shape.headLayout t.delegate ++
      (t.nodes.loans live ++ others)) := by
    apply h.lends.perm
    rw [loans, List.append_assoc]
    exact List.perm_append_comm_assoc _ _ _
  obtain ⟨hfinal, -⟩ := HeapRow.release?_lends (fun r hr => (h.sound.grown r hr).2.2) hl
  refine ⟨h.holds, h.size, h.sound.shrink, ?_⟩
  simpa [Table.shrink, loans, Buckets.loans, Buckets.shrink] using hfinal

/-- What the slots of a table owe is no longer its own once they are forgotten. -/
theorem Keeps.forget {live : List Ref} (h : t.Keeps heap live others) {size : Nat}
    (hsize : size = 0) (growth : Growth) :
    { t with nodes := t.nodes.forget, size, growth }.Keeps heap []
      (t.nodes.loans live ++ others) where
  holds := .forget t.nodes
  size := hsize
  sound := h.sound
  lends := by
    apply h.lends.perm
    simp only [loans, List.append_assoc]
    exact List.perm_append_comm_assoc _ _ _

namespace Stores

theorem renew (h : t.Stores heap rows [] others) :
    (t.renew heap).1.Stores (t.renew heap).2 (fun _ => []) [] others := by
  obtain ⟨t₁, heap₁, hclear, hs, -⟩ := h.clear
  have hk := hs.keeps.shrink
  rw [Rows.all_nil] at hk
  have hk' := hk.forget hk.size ((t₁.shrink heap₁).1.growth.retarget s.buckets)
  unfold Table.renew
  rw [hclear]
  exact hk'.stores_loose (by simp) fun i => HeadRow.head_fill_none _ i

/-- The blocks of the nodes are not returned. -/
theorem abandon (h : t.Stores heap rows [] others) :
    (t.abandon heap).1.Stores (t.abandon heap).2 (fun _ => []) []
      (t.nodes.loans t.refs ++ others) := by
  have hk := h.keeps.shrink.forget rfl ((t.shrink heap).1.growth.retarget s.buckets)
  rw [List.append_nil, ← h.refs_eq] at hk
  exact hk.stores_loose (by simp) fun i => HeadRow.head_fill_none _ i

/-- A table that goes gives back what it has borrowed, node by node and then the array. -/
theorem dispose_eq (h : t.Stores heap rows [] others) :
    t.dispose heap = heap.repay (t.loans t.refs) := by
  obtain ⟨t₁, heap₁, hclear, hs, -, hgone⟩ := h.clear
  have hrelease := HeapRow.release?_eq (fun r hr => (hs.keeps.sound.grown r hr).2.2)
    t₁.delegate heap₁
  unfold Table.dispose
  rw [hclear, loans, Heap.repay_append, ← hgone.heap, ← hgone.array, ← hgone.delegate]
  exact hrelease

theorem dispose (h : t.Stores heap rows [] others) : (t.dispose heap).Lends others := by
  have hl := h.keeps.lends
  rw [List.append_nil, ← h.refs_eq] at hl
  rw [h.dispose_eq]
  exact hl.repay

/-- The first cell at or after a position is taken out of its row. -/
theorem pop (h : t.Stores heap rows [] others) (position : Nat) :
    t.pop position heap = (none, max position t.bucketCount, t, heap) ∧
        (∀ i, position ≤ i → rows i = []) ∨
      ∃ i c cs t' heap', t.pop position heap = (some c.entry, i, t', heap') ∧
        position ≤ i ∧ (∀ j, position ≤ j → j < i → rows j = []) ∧ rows i = c :: cs ∧
        t'.Stores heap' (rows.put i cs) [] others ∧ t'.bucketCount = t.bucketCount ∧
        t.Returned heap [c.ref] t' heap' := by
  have hhead := h.head_eq
  unfold Table.pop
  simp only
  cases hf : (List.range' position (t.bucketCount - position)).findSome? fun index =>
      (t.buckets.head index).map (index, ·) with
  | none =>
    refine .inl ⟨rfl, ?_⟩
    intro i hi
    rcases Nat.lt_or_ge i t.bucketCount with hlt | hge
    · have hnone := List.findSome?_eq_none_iff.mp hf i (List.mem_range'_1.mpr (by omega))
      simpa [hhead] using hnone
    · exact h.row_eq_nil hge
  | some found =>
    obtain ⟨i, q⟩ := found
    obtain ⟨before, j, after, hsplit, hfound, hbefore⟩ := List.findSome?_eq_some_iff.mp hf
    cases hrow : rows j with
    | nil => simp [hhead, hrow] at hfound
    | cons c cs =>
      have hfound' : (j, c.ref) = (i, q) := by simpa [hhead, hrow] using hfound
      cases hfound'
      have hi : i ∈ List.range' position (t.bucketCount - position) := by simp [hsplit]
      have hj : position ≤ i := (List.mem_range'_1.mp hi).1
      have hlt : i < t.bucketCount := h.lt_of_mem (c := c) (by simp [hrow])
      have hentry : t.entryAt? c.ref = some c.entry :=
        h.entryAt?_eq (h.mem_cells (i := i) (by simp [hrow]))
      refine .inr ⟨i, c, cs, _, _, congrArg (·, i, _) hentry, hj, ?_, hrow,
        h.unlink (show rows i = [] ++ c :: cs from hrow), bucketCount_unlink _ _ none _ _,
        .unlink (h.isSome_read (i := i) (by simp [hrow])) i none heap⟩
      intro k hk hki
      -- The buckets before `i` come first and have no head.
      have hmem : k ∈ before ++ i :: after :=
        hsplit ▸ List.mem_range'_1.mpr ⟨hk, by omega⟩
      have hsorted := List.pairwise_lt_range' (s := position) (n := t.bucketCount - position)
      rw [hsplit, List.pairwise_append, List.pairwise_cons] at hsorted
      rcases List.mem_append.mp hmem with hm | hm
      · simpa [hhead] using hbefore k hm
      · rcases List.mem_cons.mp hm with rfl | hm
        · exact absurd hki (Nat.lt_irrefl _)
        · exact absurd (hsorted.2.1.1 k hm) (Nat.lt_asymm hki)

end Stores

end Table

end ArenaHash
