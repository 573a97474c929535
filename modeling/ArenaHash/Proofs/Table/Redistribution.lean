import ArenaHash.Proofs.Table.Plans

/-!
# Redistribution

A table that is granted a larger array keeps its nodes where they are and puts them, in the order
they had, into new chains: `Moved` says so of the table before and after. Whatever is next to each
other in one chain and has one hash is next to each other afterwards. `Redistribution` lists what a
request for the array may come to, with what happens at the heap.
-/

namespace ArenaHash

/-- What a node holds besides its link. -/
def Node.content {T : Type} (n : Node T) : T × Option UInt64 := (n.entry, n.hash)

/-! ## The array -/

theorem Buckets.block_setHead {P : Type} (b : Buckets P) (i : Nat) (head : Option P) :
    (b.setHead i head).grown.map HeapRow.block = b.grown.map HeapRow.block := by
  unfold setHead modifyRow
  cases b.grown <;> rfl

/-- The inline array is out of reach while there is another. -/
theorem Buckets.inline_setHead {P : Type} {b : Buckets P} (hb : b.isGrown = true) (i : Nat)
    (head : Option P) : (b.setHead i head).inline = b.inline := by
  unfold isGrown at hb
  unfold setHead modifyRow
  cases hg : b.grown with
  | none =>
    rw [hg] at hb
    cases hb
  | some r => rfl

/-- The return of an array that is no longer in force, if there is one. -/
def HeapRow.returned? {P A : Type} (slot : Layout) (old : Option (HeapRow P)) (lender : A) :
    List (Event A) :=
  old.toList.map fun r => .returned lender r.block (slot.row (r.row.count + 1))

theorem HeapRow.events_release? {P A : Type} [Allocator A] {slot : Layout} {lender : A}
    {heap : Heap A} {old : Option (HeapRow P)}
    (hold : ∀ r, old = some r →
      slot.array? (r.row.count + 1) = some (slot.row (r.row.count + 1))) :
    (release? slot old lender heap).events = returned? slot old lender ++ heap.events := by
  rw [release?_eq hold, Heap.events_repay]
  cases old <;> rfl

namespace Heap

variable {A : Type} [Allocator A] {heap heap' : Heap A} {lender : A} {layout : Layout}

theorem events_request_ok {b : Block} (h : heap.request lender layout = (.ok b, heap')) :
    b = heap.nextBlock ∧ heap'.events = .served lender b layout :: heap.events := by
  unfold request at h
  split at h
  · cases h
    exact ⟨rfl, rfl⟩
  · cases h

theorem events_request_error {e : MemoryError}
    (h : heap.request lender layout = (.error e, heap')) :
    heap'.events = .refused lender layout :: heap.events := by
  unfold request at h
  split at h
  · cases h
  · cases h
    rfl

end Heap

namespace Table

variable {s : Shape} {T A : Type} {t t' : Table s T A} {hasher : Ref → T → UInt64}

/-- What is in a slot besides the link. -/
def contentAt (t : Table s T A) (q : Ref) : Option (T × Option UInt64) :=
  (t.node? q).map Node.content

theorem contentAt_setNext (t : Table s T A) (h : Ref) (next : Option Ref) (q : Ref) :
    (t.setNext h next).contentAt q = t.contentAt q :=
  t.nodes.map_read_modify h (fun n => { n with next }) Node.content (fun _ => rfl) q

theorem contentAt_pushFront (t : Table s T A) (i : Nat) (h q : Ref) :
    (t.pushFront i h).contentAt q = t.contentAt q :=
  t.contentAt_setNext h (t.buckets.head i) q

theorem hashAt_eq_contentAt (t : Table s T A) (hasher : Ref → T → UInt64) (q : Ref) :
    t.hashAt hasher q = match t.contentAt q with
      | some (entry, hash) => hash.getD (hasher q entry)
      | none => 0 := by
  unfold hashAt contentAt
  cases t.node? q <;> rfl

/-- Hashes depend on what is in the slots, not on links. -/
theorem hashAt_setNext (t : Table s T A) (q : Ref) (next : Option Ref) (p : Ref) :
    (t.setNext q next).hashAt hasher p = t.hashAt hasher p := by
  rw [hashAt_eq_contentAt, contentAt_setNext, ← hashAt_eq_contentAt]

theorem hashAt_pushFront (t : Table s T A) (i : Nat) (q p : Ref) :
    (t.pushFront i q).hashAt hasher p = t.hashAt hasher p :=
  t.hashAt_setNext q (t.buckets.head i) p

/-! ## Moving nodes -/

/-- `t'` is `t` with all nodes moved, in order, to the chains of `count` buckets. Its array is in
`block`, the inline array is empty, and all that a node has besides its link, its slot, and what is
counted is as it was. -/
structure Moved (t : Table s T A) (hasher : Ref → T → UInt64) (count : Nat) (block : Block)
    (t' : Table s T A) : Prop where
  bucketCount : t'.bucketCount = count
  block : t'.buckets.grown.map HeapRow.block = some block
  inline : ∀ i, t'.buckets.inline.head i = none
  chain : ∀ i, t'.chain i = t.refs.filter fun q => (t.hashAt hasher q).toNat % count == i
  /-- Neighbours with one hash stay neighbours. -/
  stretch : ∀ i hash run, run <:+: t.chain i → (∀ q ∈ run, t.hashAt hasher q = hash) →
    run <:+: t'.chain (hash.toNat % count)
  refs : t'.refs.Perm t.refs
  contentAt : ∀ q, t'.contentAt q = t.contentAt q
  size : t'.size = t.size
  books : t'.nodes.books = t.nodes.books
  growth : t'.growth = t.growth

theorem Moved.isGrown {count : Nat} {block : Block} (h : t.Moved hasher count block t') :
    t'.buckets.isGrown = true := by
  have hblock := h.block
  unfold Buckets.isGrown
  cases hg : t'.buckets.grown with
  | none =>
    rw [hg] at hblock
    cases hblock
  | some r => rfl

theorem samePlan_pushFront (t : Table s T A) (i : Nat) (h : Ref) :
    t.SamePlan (t.pushFront i h) :=
  (SamePlan.setNext t h _).trans (SamePlan.setHead _ i _)

/-- Placing nodes changes chains only. -/
theorem place_frame (hasher : Ref → T → UInt64) (qs : List Ref) (t : Table s T A) :
    t.SamePlan (place t hasher qs) ∧ (place t hasher qs).size = t.size ∧
      (∀ q, (place t hasher qs).contentAt q = t.contentAt q) ∧
      (place t hasher qs).nodes.books = t.nodes.books := by
  induction qs generalizing t with
  | nil => exact ⟨.refl t, rfl, fun _ => rfl, rfl⟩
  | cons q qs ih =>
    obtain ⟨hplan, hsize, hcontent, hbooks⟩ :=
      ih (t.pushFront (t.bucketOf (t.hashAt hasher q)) q)
    refine ⟨(samePlan_pushFront t _ q).trans hplan, hsize, ?_, ?_⟩
    · exact fun p => (hcontent p).trans (contentAt_pushFront t _ q p)
    · exact hbooks.trans (Pool.books_modify _ _ _)

/-- The array that nodes are placed in is the one in force. -/
theorem place_array (hasher : Ref → T → UInt64) (qs : List Ref) {t : Table s T A}
    (hg : t.buckets.isGrown = true) :
    (place t hasher qs).buckets.grown.map HeapRow.block = t.buckets.grown.map HeapRow.block ∧
      (place t hasher qs).buckets.inline = t.buckets.inline := by
  induction qs generalizing t with
  | nil => exact ⟨rfl, rfl⟩
  | cons q qs ih =>
    have hpush : (t.pushFront (t.bucketOf (t.hashAt hasher q)) q).buckets.isGrown = true :=
      (t.buckets.isGrown_setHead _ _).trans hg
    obtain ⟨hblock, hinline⟩ := ih hpush
    exact ⟨hblock.trans (t.buckets.block_setHead _ _),
      hinline.trans (Buckets.inline_setHead hg _ _)⟩

/-- A chain is part of the list of all nodes. -/
theorem chain_infix (t : Table s T A) (i : Nat) : t.chain i <:+: t.refs := by
  rcases Nat.lt_or_ge i t.bucketCount with hi | hi
  · rw [refs, List.flatMap_def]
    exact List.infix_of_mem_flatten (List.mem_map_of_mem (List.mem_range.mpr hi))
  · rw [chain, Buckets.head_eq_none hi]
    cases t.size <;> exact List.nil_infix

/-- A stretch of nodes with one hash is part of the list of nodes for its new bucket. -/
theorem infix_filter_hashAt {count i : Nat} {hash : UInt64} {run : List Ref}
    (hrun : run <:+: t.chain i) (hhash : ∀ q ∈ run, t.hashAt hasher q = hash) :
    run <:+: t.refs.filter fun q => (t.hashAt hasher q).toNat % count == hash.toNat % count := by
  have hself : run.filter (fun q => (t.hashAt hasher q).toNat % count == hash.toNat % count) =
      run := List.filter_eq_self.mpr fun q hq => by simp [hhash q hq]
  have hinfix := (hrun.trans (t.chain_infix i)).filter fun q =>
    (t.hashAt hasher q).toNat % count == hash.toNat % count
  rwa [hself] at hinfix

variable [Allocator A] {heap heap' : Heap A} {rows : Rows T} {others : List (Loan A)}

theorem Stores.contentAt_eq (h : t.Stores heap rows [] others) {i : Nat} {c : Cell T}
    (hc : c ∈ rows i) : t.contentAt c.ref = some (c.entry, c.hash) := by
  obtain ⟨next, hn⟩ := (h.chains i).carries hc
  simp [contentAt, node?, hn, Node.content]

/-- What a redistribution comes to. -/
inductive Redistribution (t : Table s T A) (hasher : Ref → T → UInt64) (count : Nat)
    (heap : Heap A) : Except MemoryError Unit × Table s T A × Heap A → Prop where
  /-- No block may be so large, so none is requested. -/
  | tooLarge (array : Shape.headLayout.array? (count + 1) = none) :
    Redistribution t hasher count heap
      (.error (HeapRow.tooLarge Shape.headLayout t.delegate), t, heap)
  | refused {e : MemoryError} {later : Heap A}
    (array : Shape.headLayout.array? (count + 1) = some (Shape.headLayout.row (count + 1)))
    (request : heap.request t.delegate (Shape.headLayout.row (count + 1)) = (.error e, later))
    (events : later.events =
      .refused t.delegate (Shape.headLayout.row (count + 1)) :: heap.events) :
    Redistribution t hasher count heap (.error e, t, later)
  /-- First the new array is obtained, then the one before it returned. -/
  | served {t' : Table s T A} {block : Block} {later last : Heap A}
    (array : Shape.headLayout.array? (count + 1) = some (Shape.headLayout.row (count + 1)))
    (request : heap.request t.delegate (Shape.headLayout.row (count + 1)) = (.ok block, later))
    (moved : t.Moved hasher count block t')
    (release : last = HeapRow.release? Shape.headLayout t.buckets.grown t.delegate later)
    (events : last.events =
      HeapRow.returned? Shape.headLayout t.buckets.grown t.delegate ++
        .served t.delegate block (Shape.headLayout.row (count + 1)) :: heap.events) :
    Redistribution t hasher count heap (.ok (), t', last)

/-- The nodes of a table that was granted a larger array. -/
theorem Stores.moved (h : t.Stores heap rows [] others) {count : Nat} (h2 : 2 ≤ count)
    {fresh : HeapRow Ref} {later : Heap A}
    (ha : HeapRow.alloc Shape.headLayout count t.delegate heap = (.ok fresh, later))
    (hr : t.redistribute count hasher heap = (.ok (), t', heap')) :
    t.Moved hasher count fresh.block t' := by
  obtain ⟨hs, hcount, -⟩ := h.redistribute_ok h2 hr
  have hchain : ∀ i, t'.chain i =
      t.refs.filter fun q => (t.hashAt hasher q).toNat % count == i := by
    intro i
    rw [hs.chain_eq, h.refs_eq, List.filter_map]
    refine congrArg (List.map Cell.ref) (List.filter_congr fun c hc => ?_)
    have hhash : t.hashAt hasher c.ref = c.hashBy hasher :=
      h.hashAt_eq (List.mem_append_left _ hc)
    rw [Function.comp_apply, hhash]
  have hrefs : t'.refs.Perm t.refs := by
    rw [hs.refs_eq, h.refs_eq, hcount]
    exact (Rows.all_group_perm (by omega) _).map _
  have hplace : t' = Table.place { t with buckets := (t.buckets.grow fresh).2 } hasher
      t.refs.reverse := by
    simp only [redistribute, ha] at hr
    cases hr
    rfl
  obtain ⟨hplan, hsize, hcontent, hbooks⟩ := place_frame hasher t.refs.reverse
    { t with buckets := (t.buckets.grow fresh).2 }
  obtain ⟨hblock, hinline⟩ := place_array hasher t.refs.reverse
    (t := { t with buckets := (t.buckets.grow fresh).2 }) rfl
  rw [← hplace] at hplan hsize hcontent hbooks hblock hinline
  refine {
    bucketCount := hcount, block := hblock, inline := fun i => ?_, chain := hchain,
    stretch := fun i hash run hrun hhash => ?_, refs := hrefs, contentAt := hcontent,
    size := hsize, books := hbooks, growth := hplan.growth }
  · rw [hinline]
    exact HeadRow.head_fill_none _ i
  · rw [hchain]
    exact infix_filter_hashAt hrun hhash

theorem Stores.redistribute_cases (h : t.Stores heap rows [] others) (hasher : Ref → T → UInt64)
    {count : Nat} (h2 : 2 ≤ count) :
    Redistribution t hasher count heap (t.redistribute count hasher heap) := by
  cases harray : Shape.headLayout.array? (count + 1) with
  | none =>
    have hr : t.redistribute count hasher heap =
        (.error (HeapRow.tooLarge Shape.headLayout t.delegate), t, heap) := by
      simp only [Table.redistribute, HeapRow.alloc, harray]
    exact hr ▸ .tooLarge harray
  | some layout =>
    obtain rfl := Layout.array?_eq_row harray
    have ha := HeapRow.alloc_eq (P := Ref) harray t.delegate heap
    rcases hreq : heap.request t.delegate (Shape.headLayout.row (count + 1)) with
      ⟨e | block, later⟩ <;> rw [hreq] at ha
    · have hr : t.redistribute count hasher heap = (.error e, t, later) := by
        simp only [Table.redistribute, ha, Except.map]
      exact hr ▸ .refused harray hreq (Heap.events_request_error hreq)
    · have hr : t.redistribute count hasher heap =
          (.ok (), (t.redistribute count hasher heap).2.1,
            HeapRow.release? Shape.headLayout t.buckets.grown t.delegate later) := by
        simp only [Table.redistribute, ha, Except.map, Buckets.grow]
      have hmoved := h.moved h2 ha hr
      have hevents :
          (HeapRow.release? Shape.headLayout t.buckets.grown t.delegate later).events =
            HeapRow.returned? Shape.headLayout t.buckets.grown t.delegate ++
              .served t.delegate block (Shape.headLayout.row (count + 1)) :: heap.events := by
        rw [HeapRow.events_release? fun r hg => (h.keeps.sound.grown r hg).2.2,
          (Heap.events_request_ok hreq).2]
      rw [hr]
      exact .served harray hreq hmoved rfl hevents

end Table

end ArenaHash
