import ArenaHash.Proofs.Table.Stores
import ArenaHash.Table.Erase
import ArenaHash.Table.Insert

/-!
# Edits of single nodes

The steps that operations are made of, and what each does to rows and loose cells: a new node is
loose; redirecting a bucket or a link puts loose cells into a chain or takes cells out of it; a
loose node can be freed; an entry can be overwritten in place.
-/

namespace ArenaHash

namespace Pool

variable {p : Shape} {α A : Type}

@[simp] theorem delegate_write (nodes : Pool p α A) (h : Ref) (v : α) :
    (nodes.write h v).delegate = nodes.delegate := by
  cases h <;> rfl

@[simp] theorem delegate_modify (nodes : Pool p α A) (h : Ref) (f : α → α) :
    (nodes.modify h f).delegate = nodes.delegate := by
  unfold modify
  split <;> simp

end Pool

namespace Table

variable {s : Shape} {T A : Type}

@[simp] theorem bucketCount_setNext (t : Table s T A) (q : Ref) (next : Option Ref) :
    (t.setNext q next).bucketCount = t.bucketCount := rfl

variable [Allocator A] {t : Table s T A} {heap heap' : Heap A} {c : Cell T}
  {live : List Ref} {rows : Rows T} {loose loose' : List (Cell T)} {others : List (Loan A)}

/-! ## The slots of a table -/

theorem Keeps.setHead (h : t.Keeps heap live others) (i : Nat) (head : Option Ref) :
    (t.setHead i head).Keeps heap live others where
  holds := h.holds
  size := h.size
  sound := h.sound.setHead i head
  lends := by simpa [loans, Table.setHead, Buckets.loans_setHead, delegate] using h.lends

theorem Keeps.modify (h : t.Keeps heap live others) {q : Ref} (hq : q ∈ live)
    (f : Node T → Node T) : { t with nodes := t.nodes.modify q f }.Keeps heap live others where
  holds := h.holds.modify hq f
  size := h.size
  sound := h.sound
  lends := by simpa [loans, Pool.loans, delegate] using h.lends

theorem read_modify (h : t.Keeps heap live others) {q : Ref} (hq : q ∈ live)
    (f : Node T → Node T) (g : Ref) :
    (t.nodes.modify q f).read g = if q = g then (t.nodes.read g).map f else t.nodes.read g :=
  t.nodes.read_modify (h.lt_capacity hq) g f

/-- A table is refused a slot like its pool, and stays as it is. -/
theorem Keeps.newNode_error (h : t.Keeps heap live others) {node : Node T} {e : MemoryError}
    {t' : Table s T A} (hn : t.newNode node heap = (.error e, t', heap')) :
    t' = t ∧ heap'.Lends (t.loans live ++ others) ∧
      (s.overflow = true ∧ heap.Continues heap' (some e) ∨
        s.overflow = false ∧ heap' = heap ∧ live.length = s.capacity ∧
          e = .full s.capacity) := by
  unfold newNode at hn
  split at hn
  · next e' nodes later ha =>
    cases hn
    have hl := h.lends
    rw [loans, List.append_assoc] at hl ⊢
    obtain ⟨rfl, hl', hwhy⟩ := h.holds.alloc_error hl ha
    exact ⟨rfl, hl', hwhy⟩
  · cases hn

theorem Keeps.newNode_ok (h : t.Keeps heap live others) {node : Node T} {q : Ref}
    {t' : Table s T A} (hn : t.newNode node heap = (.ok q, t', heap')) :
    q ∉ live ∧ t'.Keeps heap' (q :: live) others ∧
      (∀ g, t'.nodes.read g = if q = g then some node else t.nodes.read g) ∧
      t'.buckets = t.buckets ∧ heap.Continues heap' none ∧
      (s.overflow = false → t.size < s.capacity) := by
  unfold newNode at hn
  split at hn
  · cases hn
  · next q' nodes later ha =>
    cases hn
    have hl := h.lends
    rw [loans, List.append_assoc] at hl
    obtain ⟨hnew, hp, hl', hc, hslots, hblocks, hd⟩ := h.holds.alloc_ok hl ha
    refine ⟨hnew, ⟨hp.write List.mem_cons_self node, ?_, h.sound, ?_⟩, ?_, rfl, hc, ?_⟩
    · simp [h.size]
    · simpa [loans, Pool.loans, delegate, hd, List.append_assoc] using hl'
    · intro g
      have hread : nodes.read g = t.nodes.read g := by
        cases g <;> simp [Pool.read, hslots, hblocks]
      rw [nodes.read_write (hp.lt_capacity List.mem_cons_self), hread]
    · rw [h.size]
      exact fun ho => h.holds.length_lt_of_alloc_ok ho ha

theorem Keeps.freeNode {q : Ref} (h : t.Keeps heap (q :: live) others) :
    (t.freeNode q heap).1.Keeps (t.freeNode q heap).2 live others := by
  have hl := h.lends
  rw [loans, List.append_assoc] at hl
  obtain ⟨hp, hl'⟩ := h.holds.release hl
  refine ⟨hp, ?_, h.sound, ?_⟩
  · simp [Table.freeNode, h.size]
  · simpa [Table.freeNode, loans, delegate, List.append_assoc] using hl'

@[simp] theorem bucketCount_freeNode (t : Table s T A) (q : Ref) (heap : Heap A) :
    (t.freeNode q heap).1.bucketCount = t.bucketCount := rfl

namespace Stores

/-! ## Links -/

/-- Beside the chain of a bucket, its cells are nowhere. -/
theorem nodup_apart (h : t.Stores heap rows loose others) {i : Nat} (hi : i < t.bucketCount) :
    (((rows.put i []).all t.bucketCount ++ (rows i ++ loose)).map Cell.ref).Nodup := by
  have hp : ((rows.put i []).all t.bucketCount ++ (rows i ++ loose)).Perm
      (rows.all t.bucketCount ++ loose) := rows.all_put_perm hi (.refl _)
  exact (hp.symm.map Cell.ref).nodup h.nodup

theorem ref_ne (h : t.Stores heap rows loose others) {i j : Nat} (hij : j ≠ i) {c d : Cell T}
    (hc : c ∈ rows i ++ loose) (hi : i < t.bucketCount) (hd : d ∈ rows j) : c.ref ≠ d.ref := by
  have hn := h.nodup_apart hi
  rw [List.map_append, List.nodup_append] at hn
  have hmem : d ∈ (rows.put i []).all t.bucketCount :=
    Rows.mem_all _ |>.mpr ⟨j, h.lt_of_mem hd, (rows.put_of_ne hij []).symm ▸ hd⟩
  exact fun heq => hn.2.2 d.ref (List.mem_map_of_mem hmem) c.ref (List.mem_map_of_mem hc) heq.symm

/-- The handle of a cell of a row is that of no other cell there and of no loose one. -/
theorem ref_notMem (h : t.Stores heap rows loose others) {i : Nat} {pre post : List (Cell T)}
    {c : Cell T} (hr : rows i = pre ++ c :: post) :
    c.ref ∉ (pre ++ (post ++ loose)).map Cell.ref := by
  have hi : i < t.bucketCount := h.lt_of_mem (c := c) (by simp [hr])
  have hn := (h.nodup_apart hi).sublist ((List.sublist_append_right _ _).map _)
  rw [hr, List.append_assoc, List.cons_append] at hn
  exact (List.nodup_cons.mp ((List.perm_middle.map Cell.ref).nodup hn)).1

/-- A bucket may be given any chain of cells that were in it or loose. -/
theorem setHead (h : t.Stores heap rows loose others) {i : Nat} (hi : i < t.bucketCount)
    {target : Option Ref} {cs : List (Cell T)} (htarget : t.nodes.Segment target cs none)
    (hp : (cs ++ loose').Perm (rows i ++ loose)) :
    (t.setHead i target).Stores heap (rows.put i cs) loose' others where
  chains := by
    intro j
    change t.nodes.Segment ((t.buckets.setHead i target).head j) _ none
    rw [Buckets.head_setHead]
    by_cases hj : i = j
    · subst hj
      rw [if_pos ⟨rfl, hi⟩, Rows.put_self]
      exact htarget
    · rw [if_neg fun hc => hj hc.1, rows.put_of_ne fun hc => hj hc.symm]
      exact h.chains j
  carries := by
    intro c hc
    apply h.carries_of_mem
    rcases List.mem_append.mp (hp.mem_iff.mp (List.mem_append_right _ hc)) with hc | hc
    · exact h.mem_cells hc
    · exact List.mem_append_right _ hc
  keeps := by
    rw [bucketCount_setHead]
    exact (h.keeps.setHead i target).perm ((rows.all_put_perm hi hp).symm.map _)

/-- What a change to the node of one cell of a row does, and what it leaves as it was. -/
theorem modify_frame (h : t.Stores heap rows loose others) {i : Nat} {pre post : List (Cell T)}
    (hr : rows i = pre ++ c :: post) (f : Node T → Node T) :
    (t.nodes.modify c.ref f).read c.ref = (t.nodes.read c.ref).map f ∧
      (∀ d ∈ pre ++ (post ++ loose),
        (t.nodes.modify c.ref f).read d.ref = t.nodes.read d.ref) ∧
      (∀ j, j ≠ i → (t.nodes.modify c.ref f).Segment (t.buckets.head j) (rows j) none) ∧
      { t with nodes := t.nodes.modify c.ref f }.Keeps heap
        ((rows.all t.bucketCount ++ loose).map Cell.ref) others := by
  have hc : c ∈ rows i := by simp [hr]
  have hi := h.lt_of_mem hc
  have hlive : c.ref ∈ (rows.all t.bucketCount ++ loose).map Cell.ref :=
    List.mem_map_of_mem (h.mem_cells hc)
  have hread := read_modify h.keeps hlive f
  refine ⟨(hread c.ref).trans (if_pos rfl), ?_, ?_, h.keeps.modify hlive f⟩
  · intro d hd
    refine (hread d.ref).trans (if_neg fun heq => h.ref_notMem hr ?_)
    rw [heq]
    exact List.mem_map_of_mem hd
  · intro j hj
    refine (h.chains j).congr fun d hd => (hread d.ref).trans (if_neg ?_)
    exact h.ref_ne hj (List.mem_append_left _ hc) hi hd

/-- The chain after a cell may be exchanged for any chain of cells that were in it or loose. -/
theorem setNext (h : t.Stores heap rows loose others) {i : Nat} {pre post cs : List (Cell T)}
    {c : Cell T} (hr : rows i = pre ++ c :: post) {target : Option Ref}
    (htarget : t.nodes.Segment target cs none) (hp : (cs ++ loose').Perm (post ++ loose)) :
    (t.setNext c.ref target).Stores heap (rows.put i (pre ++ c :: cs)) loose' others := by
  have hc : c ∈ rows i := by simp [hr]
  have hi := h.lt_of_mem hc
  obtain ⟨-, hsame, helsewhere, hkeeps⟩ := h.modify_frame hr fun n => { n with next := target }
  have hsub : ∀ d ∈ cs ++ loose', d ∈ pre ++ (post ++ loose) := fun d hd =>
    List.mem_append_right _ (hp.mem_iff.mp hd)
  have hperm : ((pre ++ c :: cs) ++ loose').Perm (rows i ++ loose) := by
    rw [hr]
    simpa [List.append_assoc] using (hp.cons c).append_left pre
  refine ⟨?_, ?_, ?_⟩
  · intro j
    by_cases hj : j = i
    · subst hj
      rw [Rows.put_self, List.append_cons]
      have hchain := h.chains j
      rw [hr, List.append_cons] at hchain
      obtain ⟨middle, hpre, -⟩ := Pool.Segment.append.mp hchain
      refine Pool.Segment.append.mpr ⟨target, ?_, htarget.congr ?_⟩
      · have hlive := List.mem_map_of_mem (f := Cell.ref)
          (List.mem_append_left loose (h.mem_all hc))
        refine Pool.Segment.setLast (h.keeps.lt_capacity hlive) ?_ target (fun _ => rfl) hpre
        have hnew := h.ref_notMem hr
        rw [List.map_append] at hnew
        exact fun hm => hnew (List.mem_append_left _ hm)
      · intro d hd
        exact hsame d (hsub d (List.mem_append_left _ hd))
    · rw [rows.put_of_ne hj]
      exact helsewhere j hj
  · intro d hd
    obtain ⟨next, hn⟩ : t.nodes.Carries d := by
      apply h.carries_of_mem
      rcases List.mem_append.mp (hp.mem_iff.mp (List.mem_append_right cs hd)) with hd | hd
      · exact h.mem_cells (i := i) (by simp [hr, hd])
      · exact List.mem_append_right _ hd
    exact ⟨next, (hsame d (hsub d (List.mem_append_right _ hd))).trans hn⟩
  · exact hkeeps.perm ((rows.all_put_perm hi hperm).symm.map _)

/-- The handle of a loose cell is that of no other cell. -/
theorem loose_notMem (h : t.Stores heap rows (c :: loose) others) :
    c.ref ∉ (rows.all t.bucketCount ++ loose).map Cell.ref :=
  (List.nodup_cons.mp ((List.perm_middle.map Cell.ref).nodup h.nodup)).1

theorem loose_notMem_row (h : t.Stores heap rows (c :: loose) others) (i : Nat) :
    c.ref ∉ (rows i).map Cell.ref := by
  intro hmem
  obtain ⟨d, hd, heq⟩ := List.mem_map.mp hmem
  refine h.loose_notMem ?_
  rw [← heq]
  exact List.mem_map_of_mem (List.mem_append_left _ (h.mem_all hd))

/-- The link out of a loose cell is no one's concern. -/
theorem setNext_loose (h : t.Stores heap rows (c :: loose) others) (target : Option Ref) :
    (t.setNext c.ref target).Stores heap rows (c :: loose) others := by
  have hlive : c.ref ∈ (rows.all t.bucketCount ++ c :: loose).map Cell.ref :=
    List.mem_map_of_mem (by simp)
  have hread := read_modify h.keeps hlive fun n => { n with next := target }
  refine ⟨fun i => ?_, fun d hd => ?_, h.keeps.modify hlive _⟩
  · exact (h.chains i).modify_of_notMem (h.loose_notMem_row i) _
  · obtain ⟨next, hnext⟩ := h.carries d hd
    by_cases hcd : c.ref = d.ref
    · refine ⟨target, (hread d.ref).trans ?_⟩
      rw [if_pos hcd, hnext]
      rfl
    · exact ⟨next, (hread d.ref).trans ((if_neg hcd).trans hnext)⟩

/-- A loose cell is put at the front of a chain. -/
theorem pushFront (h : t.Stores heap rows (c :: loose) others) {i : Nat}
    (hi : i < t.bucketCount) :
    (t.pushFront i c.ref).Stores heap (rows.put i (c :: rows i)) loose others := by
  have hchain : (t.setNext c.ref (t.buckets.head i)).nodes.Segment (some c.ref) (c :: rows i)
      none := (h.chains i).cons_modify (h.carries c List.mem_cons_self) (h.loose_notMem_row i)
  exact (h.setNext_loose (t.buckets.head i)).setHead hi hchain List.perm_middle.symm

/-! ## Nodes -/

/-- The node that a table obtains is loose; its link may already lead to a chain. -/
theorem newNode_ok (h : t.Stores heap rows loose others) {node : Node T} {q : Ref}
    {t' : Table s T A} (hn : t.newNode node heap = (.ok q, t', heap')) :
    t'.Stores heap' rows (⟨q, node.entry, node.hash⟩ :: loose) others ∧
      (∀ {cs}, (∀ c ∈ cs, c ∈ rows.all t.bucketCount ++ loose) →
        t.nodes.Segment node.next cs none →
          t'.nodes.Segment (some q) (⟨q, node.entry, node.hash⟩ :: cs) none) ∧
      t'.buckets = t.buckets ∧ heap.Continues heap' none ∧
      (s.overflow = false → t.size < s.capacity) := by
  obtain ⟨hnew, hk, hread, hb, hc, hsize⟩ := h.keeps.newNode_ok hn
  have hnode : t'.nodes.read q = some node := (hread q).trans (if_pos rfl)
  have hsame : ∀ c ∈ rows.all t.bucketCount ++ loose,
      t'.nodes.read c.ref = t.nodes.read c.ref := by
    intro c hc
    refine (hread c.ref).trans (if_neg fun heq => hnew ?_)
    rw [heq]
    exact List.mem_map_of_mem hc
  have hcount : t'.bucketCount = t.bucketCount := congrArg Buckets.count hb
  refine ⟨⟨?_, ?_, ?_⟩, ?_, hb, hc, hsize⟩
  · intro i
    rw [hb]
    exact (h.chains i).congr fun c hc => hsame c (h.mem_cells hc)
  · intro c hc
    rcases List.mem_cons.mp hc with rfl | hc
    · exact ⟨node.next, hnode⟩
    · obtain ⟨next, hnext⟩ := h.carries c hc
      exact ⟨next, (hsame c (List.mem_append_right _ hc)).trans hnext⟩
  · rw [hcount]
    apply hk.perm
    simp only [List.map_append, List.map_cons]
    exact List.perm_middle.symm
  · intro cs hcs hseg
    exact ⟨rfl, node.next, hnode, hseg.congr fun c hc => hsame c (hcs c hc)⟩

/-- A loose node may be returned. -/
theorem freeNode (h : t.Stores heap rows (c :: loose) others) :
    (t.freeNode c.ref heap).1.Stores (t.freeNode c.ref heap).2 rows loose others := by
  have hk : t.Keeps heap (c.ref :: (rows.all t.bucketCount ++ loose).map Cell.ref) others := by
    apply h.keeps.perm
    simp only [List.map_append, List.map_cons]
    exact List.perm_middle
  have hread : ∀ d ∈ rows.all t.bucketCount ++ loose,
      (t.freeNode c.ref heap).1.nodes.read d.ref = t.nodes.read d.ref := fun d hd =>
    t.nodes.read_free heap fun heq => h.loose_notMem (heq ▸ List.mem_map_of_mem hd)
  refine ⟨fun i => ?_, fun d hd => ?_, hk.freeNode⟩
  · exact (h.chains i).congr fun d hd => hread d (List.mem_append_left _ (h.mem_all hd))
  · obtain ⟨next, hnext⟩ := h.carries d (List.mem_cons_of_mem _ hd)
    exact ⟨next, (hread d (List.mem_append_right _ hd)).trans hnext⟩

/-- A node is taken out of its chain and returned. -/
theorem unlink (h : t.Stores heap rows loose others) {i : Nat} {pre post : List (Cell T)}
    (hr : rows i = pre ++ c :: post) :
    (t.unlink i (pre.getLast?.map Cell.ref) c.ref heap).1.Stores
      (t.unlink i (pre.getLast?.map Cell.ref) c.ref heap).2 (rows.put i (pre ++ post)) loose
      others := by
  have hi : i < t.bucketCount := h.lt_of_mem (c := c) (by simp [hr])
  have hchain := h.chains i
  rw [hr] at hchain
  have htarget := hchain.next_eq
  rcases List.eq_nil_or_concat pre with rfl | ⟨pre, d, rfl⟩
  · refine freeNode (h.setHead hi htarget ?_)
    rw [hr]
    exact List.perm_middle
  · have hr' : rows i = pre ++ d :: c :: post := by simpa using hr
    rw [List.concat_eq_append, List.getLast?_concat, List.append_assoc]
    exact freeNode (h.setNext hr' htarget List.perm_middle)

/-- The entry of a node is overwritten in place. -/
theorem setEntry (h : t.Stores heap rows loose others) {i : Nat} {pre post : List (Cell T)}
    (hr : rows i = pre ++ c :: post) (entry : T) :
    (t.setEntry c.ref entry).Stores heap (rows.put i (pre ++ { c with entry } :: post)) loose
      others := by
  have hi : i < t.bucketCount := h.lt_of_mem (c := c) (by simp [hr])
  obtain ⟨hself, hsame, helsewhere, hkeeps⟩ := h.modify_frame hr fun n => { n with entry }
  have hperm : (((rows.put i (pre ++ { c with entry } :: post)).all t.bucketCount ++ loose).map
      Cell.ref) = (rows.all t.bucketCount ++ loose).map Cell.ref := by
    rw [rows.all_put hi, rows.all_eq hi, hr]
    simp
  refine ⟨?_, ?_, ?_⟩
  · intro j
    by_cases hj : j = i
    · subst hj
      rw [Rows.put_self]
      have hchain := h.chains j
      rw [hr] at hchain
      obtain ⟨middle, hpre, hm, next, hn, hpost⟩ := Pool.Segment.append.mp hchain
      refine Pool.Segment.append.mpr ⟨middle, hpre.congr fun d hd => hsame d (by simp [hd]), hm,
        next, hself.trans ?_, hpost.congr fun d hd => hsame d (by simp [hd])⟩
      rw [hn]
      rfl
    · rw [rows.put_of_ne hj]
      exact helsewhere j hj
  · intro d hd
    obtain ⟨next, hn⟩ := h.carries d hd
    exact ⟨next, (hsame d (by simp [hd])).trans hn⟩
  · change Keeps _ _ (((rows.put i _).all t.bucketCount ++ _).map _) _
    rw [hperm]
    exact hkeeps

theorem setEntry_front {i : Nat} {cs : List (Cell T)}
    (h : t.Stores heap (rows.put i (c :: cs)) loose others) (entry : T) :
    (t.setEntry c.ref entry).Stores heap (rows.put i ({ c with entry } :: cs)) loose others := by
  have hrow : rows.put i (c :: cs) i = [] ++ c :: cs := Rows.put_self _ _ _
  have hset := h.setEntry hrow entry
  rwa [Rows.put_put] at hset

/-! ## Settings -/

/-- The growth plan does not matter to what is stored. -/
theorem withGrowth (h : t.Stores heap rows loose others) (growth : Growth) :
    { t with growth }.Stores heap rows loose others :=
  ⟨h.chains, h.carries, h.keeps.holds, h.keeps.size, h.keeps.sound, h.keeps.lends⟩

theorem setMaxLoad (h : t.Stores heap rows loose others) (maxLoad : Binary32) :
    (t.setMaxLoad maxLoad).Stores heap rows loose others := by
  unfold Table.setMaxLoad
  split
  · split
    · exact h.withGrowth _
    · exact h
  · exact h

end Stores

omit [Allocator A] in
theorem bucketCount_setMaxLoad (t : Table s T A) (maxLoad : Binary32) :
    (t.setMaxLoad maxLoad).bucketCount = t.bucketCount := by
  unfold Table.setMaxLoad
  split
  · split <;> rfl
  · rfl

omit [Allocator A] in
theorem lender_of_mem_loans {x : Loan A} (hx : x ∈ t.loans live) : x.lender = t.delegate := by
  rcases List.mem_append.mp hx with hx | hx
  · obtain ⟨b, -, rfl⟩ := List.mem_map.mp hx
    rfl
  · obtain ⟨r, -, rfl⟩ := List.mem_map.mp hx
    rfl

/-- A table whose use of overflow memory has ended owes nothing. -/
theorem Keeps.loans_eq_nil (h : t.Keeps heap live others) (hlive : t.nodes.overflowLive = 0)
    (hgrown : t.buckets.isGrown = false) : t.loans live = [] := by
  have hblocks : live.filterMap Handle.block? = [] :=
    List.eq_nil_of_length_eq_zero (h.holds.overflowLive.symm.trans hlive)
  have hrow : t.buckets.grown = none := by simpa [Buckets.isGrown] using hgrown
  simp [loans, Pool.loans, Buckets.loans, hblocks, hrow]

/-- A new overflow allocator is equal to the old one, or nothing has to be returned to it. -/
theorem Stores.relend (h : t.Stores heap rows loose others) {delegate : A}
    (heq : delegate == t.delegate ∨ t.nodes.overflowLive = 0 ∧ t.buckets.isGrown = false) :
    Stores { t with nodes := { t.nodes with delegate } } heap rows loose others := by
  have hn : ∀ q, Pool.read { t.nodes with delegate } q = t.nodes.read q := fun q => by
    cases q <;> rfl
  refine ⟨fun i => (h.chains i).congr fun c _ => hn c.ref, ?_,
    h.keeps.holds.relend delegate, h.keeps.size, h.keeps.sound, ?_⟩
  · intro c hc
    obtain ⟨next, hnext⟩ := h.carries c hc
    exact ⟨next, (hn c.ref).trans hnext⟩
  · refine h.keeps.lends.relend delegate ?_ ?_
    · simp [loans, Pool.loans, Buckets.loans, HeapRow.loan, Table.delegate, Function.comp_def]
      rfl
    · intro x hx
      rcases heq with heq | ⟨hlive, hgrown⟩
      · rwa [lender_of_mem_loans hx]
      · rw [h.keeps.loans_eq_nil hlive hgrown] at hx
        cases hx

theorem Stores.setDelegate (h : t.Stores heap rows loose others) (delegate : A) :
    (t.setDelegate delegate).2.Stores heap rows loose others := by
  unfold Table.setDelegate Pool.setDelegate
  cases heq : delegate == t.delegate with
  | true =>
    have hne : (delegate != t.delegate) = false := by simp [bne, heq]
    have hne' : (delegate != t.nodes.delegate) = false := hne
    simp only [hne, hne', Bool.and_false]
    exact h.relend (.inl heq)
  | false =>
    have hne : (delegate != t.delegate) = true := by simp [bne, heq]
    have hne' : (delegate != t.nodes.delegate) = true := hne
    simp only [hne, hne', Bool.and_true]
    split
    · exact h
    · next hgrown =>
      split
      · exact h
      · next hlive => exact h.relend (.inr ⟨by simpa using hlive, by simpa using hgrown⟩)

theorem bucketCount_setDelegate (t : Table s T A) (delegate : A) :
    (t.setDelegate delegate).2.bucketCount = t.bucketCount := by
  unfold Table.setDelegate
  split <;> rfl

end Table

end ArenaHash
