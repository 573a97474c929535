import ArenaHash.Proofs.Table.Redistribution

/-!
# Redistribution by links alone

A growing table has no memory for a list of its nodes. It takes them off their chains one by one,
each linked to those taken off before (`detach`), and follows these links to put each in front of
its new chain (`putBack`). Both turn the order round, so it stays. `Stores.relink_eq`: in a table
whose chains are sound this is `redistribute`, to the last link.
-/

namespace ArenaHash

/-! ## Links that are overwritten -/

theorem Blocks.write_write {α : Type} (b : Block) (v w : α) : ∀ bs : Blocks α,
    (bs.write b v).write b w = bs.write b w
  | [] => by simp [write]
  | (c, u) :: bs => by
    by_cases hc : c = b
    · simp [write, hc]
    · simp [write, hc, write_write b v w bs]

theorem Blocks.write_comm {α : Type} {b c : Block} (hne : b ≠ c) (v w : α) : ∀ {bs : Blocks α},
    (bs.read b).isSome → (bs.read c).isSome →
      (bs.write b v).write c w = (bs.write c w).write b v
  | [], hb, _ => nomatch hb
  | (d, u) :: bs, hb, hc => by
    by_cases hdb : d = b
    · subst hdb
      simp [write, hne]
    · by_cases hdc : d = c
      · subst hdc
        simp [write, hdb]
      · simp only [read, hdb, hdc, if_false] at hb hc
        simp [write, hdb, hdc, write_comm hne v w hb hc]

namespace Pool

variable {p : Shape} {T A : Type} {nodes nodes' : Pool p (Node T) A}

theorem modify_of_read {α : Type} {nodes : Pool p α A} {h : Ref} {v : α}
    (hr : nodes.read h = some v) (f : α → α) : nodes.modify h f = nodes.write h (f v) := by
  simp only [modify, hr]

theorem modify_of_none {α : Type} {nodes : Pool p α A} {h : Ref} (hr : nodes.read h = none)
    (f : α → α) : nodes.modify h f = nodes := by
  simp only [modify, hr]

theorem modify_modify {α : Type} (nodes : Pool p α A) (h : Ref) (f g : α → α) :
    (nodes.modify h f).modify h g = nodes.modify h (g ∘ f) := by
  cases hr : nodes.read h with
  | none => rw [modify_of_none hr, modify_of_none hr, modify_of_none hr]
  | some v =>
    have hnew : (nodes.write h (f v)).read h = some (f v) := by
      rw [read_write nodes (lt_capacity_of_read hr), if_pos rfl]
    rw [modify_of_read hr, modify_of_read hr, modify_of_read hnew]
    cases h with
    | inline i => simp [write]
    | overflow b => simp [write, Blocks.write_write]

theorem write_comm {α : Type} {nodes : Pool p α A} {h k : Ref} (hne : h ≠ k)
    (hh : (nodes.read h).isSome) (hk : (nodes.read k).isSome) (v w : α) :
    (nodes.write h v).write k w = (nodes.write k w).write h v := by
  cases h with
  | inline i =>
    cases k with
    | inline j =>
      have hij : i ≠ j := fun hij => hne (hij ▸ rfl)
      simp only [write, Pool.mk.injEq, and_true]
      rw [← Vector.toArray_inj]
      simpa using Array.setIfInBounds_comm _ _ hij
    | overflow b => rfl
  | overflow b =>
    cases k with
    | inline j => rfl
    | overflow c =>
      have hbc : b ≠ c := fun hbc => hne (hbc ▸ rfl)
      simp only [write, Blocks.write_comm hbc v w hh hk]

theorem modify_comm {α : Type} (nodes : Pool p α A) {h k : Ref} (hne : h ≠ k) (f g : α → α) :
    (nodes.modify h f).modify k g = (nodes.modify k g).modify h f := by
  have hh := nodes.read_modify_of_ne hne.symm g
  have hk := nodes.read_modify_of_ne hne f
  cases hrh : nodes.read h with
  | none => rw [modify_of_none hrh, modify_of_none (hh.trans hrh)]
  | some v =>
    cases hrk : nodes.read k with
    | none => rw [modify_of_none hrk, modify_of_none (hk.trans hrk)]
    | some w =>
      rw [modify_of_read (hk.trans hrk), modify_of_read (hh.trans hrh), modify_of_read hrh,
        modify_of_read hrk]
      exact write_comm hne (by simp [hrh]) (by simp [hrk]) _ _

/-- Links out of some nodes were changed, and nothing else. -/
inductive Relinked (qs : List Ref) : Pool p (Node T) A → Pool p (Node T) A → Prop where
  | refl (nodes : Pool p (Node T) A) : Relinked qs nodes nodes
  | link {nodes nodes' : Pool p (Node T) A} {q : Ref} (hq : q ∈ qs) (next : Option Ref)
    (h : Relinked qs (nodes.modify q fun n => { n with next }) nodes') : Relinked qs nodes nodes'

namespace Relinked

variable {qs rs : List Ref} {nodes'' : Pool p (Node T) A}

theorem mono (h : Relinked qs nodes nodes') (hsub : ∀ q ∈ qs, q ∈ rs) :
    Relinked rs nodes nodes' := by
  induction h with
  | refl nodes => exact .refl nodes
  | link hq next _ ih => exact .link (hsub _ hq) next ih

theorem trans (h : Relinked qs nodes nodes') (h' : Relinked qs nodes' nodes'') :
    Relinked qs nodes nodes'' := by
  induction h with
  | refl nodes => exact h'
  | link hq next _ ih => exact .link hq next (ih h')

theorem read_of_notMem (h : Relinked qs nodes nodes') {q : Ref} (hq : q ∉ qs) :
    nodes'.read q = nodes.read q := by
  induction h with
  | refl nodes => rfl
  | @link nodes nodes' r hr next _ ih =>
    have hne : r ≠ q := fun hrq => hq (hrq ▸ hr)
    exact ih.trans (nodes.read_modify_of_ne hne _)

theorem segment (h : Relinked qs nodes nodes') {head : Option Ref} {cs : List (Cell T)}
    (hseg : nodes.Segment head cs none) (hcs : List.Disjoint (cs.map Cell.ref) qs) :
    nodes'.Segment head cs none :=
  hseg.congr fun _ hc => h.read_of_notMem (hcs (List.mem_map_of_mem hc))

theorem books (h : Relinked qs nodes nodes') : nodes'.books = nodes.books := by
  induction h with
  | refl nodes => rfl
  | link hq next _ ih => exact ih.trans (books_modify _ _ _)

end Relinked

end Pool

/-! ## Arrays that are emptied before they go -/

theorem HeadRow.fill_setHead {P : Type} (r : HeadRow P) (i : Nat) :
    (r.setHead i none).fill none = r.fill none := by
  have hcount := r.count_setHead i none
  unfold fill
  rw [hcount]
  unfold setHead
  split
  · next hi =>
    congr 1
    apply Array.ext
    · simp
    · intro j hj hj'
      rw [Array.getElem_mapIdx, Array.getElem_mapIdx]
      by_cases hij : i = j
      · subst hij
        rw [if_pos hi, if_pos hi]
      · rw [Array.getElem_setIfInBounds_ne _ hij]
  · rfl

/-- For growing it makes no difference whether a head was cleared before. -/
structure Buckets.Emptied {P : Type} (b b' : Buckets P) : Prop where
  count : b'.count = b.count
  inline : b'.inline.fill none = b.inline.fill none
  grown : ∀ {A : Type} [Allocator A] (slot : Layout) (lender : A) (heap : Heap A),
    HeapRow.release? slot b'.grown lender heap = HeapRow.release? slot b.grown lender heap

namespace Buckets.Emptied

variable {P : Type} {b b' b'' : Buckets P}

theorem refl (b : Buckets P) : b.Emptied b := ⟨rfl, rfl, fun _ _ _ => rfl⟩

theorem trans (h : b.Emptied b') (h' : b'.Emptied b'') : b.Emptied b'' :=
  ⟨h'.count.trans h.count, h'.inline.trans h.inline, fun slot lender heap =>
    (h'.grown slot lender heap).trans (h.grown slot lender heap)⟩

theorem setHead (b : Buckets P) (i : Nat) : b.Emptied (b.setHead i none) := by
  refine ⟨b.count_setHead i none, ?_, fun slot lender heap => ?_⟩
  all_goals
    unfold Buckets.setHead modifyRow
    cases b.grown with
    | none => simp [HeadRow.fill_setHead]
    | some r => simp [HeapRow.release?, HeapRow.release, HeadRow.count_setHead]

theorem grow_eq (h : b.Emptied b') (fresh : HeapRow P) :
    (b'.grow fresh).2 = (b.grow fresh).2 := by
  simp only [Buckets.grow, h.inline]

end Buckets.Emptied

namespace Table

variable {s : Shape} {T A : Type}

/-! ## The two loops -/

/-- Takes up to `limit` nodes off a chain, the first one first. Each is linked to the pending ones
and then is the first of them. -/
def takeOff : (limit : Nat) → (link pending : Option Ref) → Table s T A →
    Table s T A × Option Ref
  | 0, _, pending, t => (t, pending)
  | _ + 1, none, pending, t => (t, pending)
  | limit + 1, some h, pending, t =>
    takeOff limit (t.nodes.next h) (some h) (t.setNext h pending)

/-- Takes the nodes off the chains of the buckets, one bucket after the other. -/
def detach : List Nat → (pending : Option Ref) → Table s T A → Table s T A × Option Ref
  | [], pending, t => (t, pending)
  | i :: is, pending, t =>
    let (t, pending) := takeOff t.size (t.buckets.head i) pending (t.setHead i none)
    detach is pending t

/-- Puts up to `limit` pending nodes in front of the chains that their hashes belong to. -/
def putBack (hasher : Ref → T → UInt64) : (limit : Nat) → (pending : Option Ref) →
    Table s T A → Table s T A
  | 0, _, t => t
  | _ + 1, none, t => t
  | limit + 1, some h, t =>
    putBack hasher limit (t.nodes.next h) (t.pushFront (t.bucketOf (t.hashAt hasher h)) h)

/-- Moves every node to a new array of `count` buckets, with the links for a list. -/
def relink [Allocator A] (t : Table s T A) (count : Nat) (hasher : Ref → T → UInt64)
    (heap : Heap A) : Except MemoryError Unit × Table s T A × Heap A :=
  match HeapRow.alloc Shape.headLayout count t.delegate heap with
  | (.error e, heap) => (.error e, t, heap)
  | (.ok fresh, heap) =>
    let (t, pending) := t.detach (List.range t.bucketCount) none
    let (old, buckets) := t.buckets.grow fresh
    (.ok (), putBack hasher t.size pending { t with buckets },
      HeapRow.release? Shape.headLayout old t.delegate heap)

variable {t : Table s T A} {hasher : Ref → T → UInt64}

/-- The nodes of a chain come off in order, so that the last one is the first of those pending. -/
theorem takeOff_eq {cs ds : List (Cell T)} {limit : Nat} {link pending : Option Ref}
    (hlink : t.nodes.Segment link cs none) (hpending : t.nodes.Segment pending ds none)
    (hnodup : ((cs ++ ds).map Cell.ref).Nodup) (hlimit : cs.length ≤ limit) :
    ∃ nodes first, takeOff limit link pending t = ({ t with nodes }, first) ∧
      nodes.Segment first (cs.reverse ++ ds) none ∧
      t.nodes.Relinked (cs.map Cell.ref) nodes := by
  induction cs generalizing t ds limit link pending with
  | nil =>
    cases hlink
    refine ⟨t.nodes, pending, ?_, hpending, .refl _⟩
    cases limit <;> rfl
  | cons c cs ih =>
    obtain ⟨rfl, next, hn, hrest⟩ := hlink
    obtain ⟨limit, rfl⟩ : ∃ k, limit = k + 1 := ⟨limit - 1, by simp at hlimit; omega⟩
    rw [List.cons_append, List.map_cons, List.nodup_cons, List.map_append, List.mem_append,
      not_or] at hnodup
    obtain ⟨⟨hcs, hds⟩, hrefs⟩ := hnodup
    have hnext : t.nodes.next c.ref = next := by simp [Pool.next, hn]
    have hpending' : (t.setNext c.ref pending).nodes.Segment (some c.ref) (c :: ds) none :=
      hpending.cons_modify ⟨next, hn⟩ hds
    have hrest' : (t.setNext c.ref pending).nodes.Segment next cs none :=
      hrest.modify_of_notMem hcs _
    have hnodup' : ((cs ++ c :: ds).map Cell.ref).Nodup := by
      rw [List.map_append, List.map_cons]
      exact List.nodup_middle.mpr (List.nodup_cons.mpr
        ⟨fun h => (List.mem_append.mp h).elim hcs hds, hrefs⟩)
    obtain ⟨nodes, first, hrun, hseg, hlinks⟩ :=
      ih hrest' hpending' hnodup' (by simpa using hlimit)
    refine ⟨nodes, first, ?_, by simpa using hseg, ?_⟩
    · rw [takeOff, hnext, hrun]
      rfl
    · exact .link (by simp) pending (hlinks.mono fun q hq => List.mem_cons_of_mem _ hq)

/-- All nodes of the buckets come off, and nothing but their links and the heads is changed. -/
theorem detach_eq {rows : Rows T} {is : List Nat} {ds : List (Cell T)} {pending : Option Ref}
    (hchains : ∀ i ∈ is, t.nodes.Segment (t.buckets.head i) (rows i) none)
    (hpending : t.nodes.Segment pending ds none) (his : is.Nodup)
    (hnodup : ((is.flatMap rows ++ ds).map Cell.ref).Nodup)
    (hlimit : ∀ i ∈ is, (rows i).length ≤ t.size) :
    ∃ nodes buckets first, detach is pending t = ({ t with nodes, buckets }, first) ∧
      nodes.Segment first ((is.flatMap rows).reverse ++ ds) none ∧
      t.nodes.Relinked ((is.flatMap rows).map Cell.ref) nodes ∧ t.buckets.Emptied buckets := by
  induction is generalizing t ds pending with
  | nil => exact ⟨t.nodes, t.buckets, pending, rfl, hpending, .refl _, .refl _⟩
  | cons i is ih =>
    obtain ⟨hi, his⟩ := List.nodup_cons.mp his
    rw [List.flatMap_cons, List.append_assoc] at hnodup
    have hrow : ((rows i ++ ds).map Cell.ref).Nodup :=
      hnodup.sublist ((List.Sublist.append_left (List.sublist_append_right _ _) _).map _)
    obtain ⟨nodes, first, hrun, hseg, hlinks⟩ := takeOff_eq (t := t.setHead i none)
      (hchains i List.mem_cons_self) hpending hrow (hlimit i List.mem_cons_self)
    -- The chains of the other buckets are as they were.
    have hothers : ∀ j ∈ is, nodes.Segment ((t.buckets.setHead i none).head j) (rows j) none := by
      intro j hj
      have hij : i ≠ j := fun hij => hi (hij ▸ hj)
      have hrows : List.Disjoint ((rows j).map Cell.ref) ((rows i).map Cell.ref) := by
        have hsub : rows j ⊆ is.flatMap rows ++ ds := fun d hd =>
          List.mem_append_left _ (List.mem_flatMap.mpr ⟨j, hj, hd⟩)
        rw [List.map_append] at hnodup
        exact List.disjoint_of_subset_left (List.map_subset _ hsub)
          (List.disjoint_symm (List.disjoint_of_nodup_append hnodup))
      rw [Buckets.head_setHead, if_neg fun h => hij h.1]
      exact hlinks.segment (hchains j (List.mem_cons_of_mem i hj)) hrows
    have hnodup' : ((is.flatMap rows ++ ((rows i).reverse ++ ds)).map Cell.ref).Nodup := by
      refine (List.Perm.map _ ?_).nodup hnodup
      refine (List.perm_append_comm_assoc _ _ _).trans (.append_left _ (.append_right _ ?_))
      exact (List.reverse_perm _).symm
    obtain ⟨nodes', buckets, last, hrun', hseg', hlinks', hemptied⟩ :=
      ih (t := { t.setHead i none with nodes }) hothers hseg his hnodup'
        fun j hj => hlimit j (List.mem_cons_of_mem i hj)
    refine ⟨nodes', buckets, last, ?_, by simpa using hseg', ?_,
      (Buckets.Emptied.setHead t.buckets i).trans hemptied⟩
    · have hsize : (t.setHead i none).size = t.size := rfl
      rw [hsize] at hrun
      rw [detach, hrun]
      exact hrun'
    · rw [List.flatMap_cons, List.map_append]
      exact (hlinks.mono fun q hq => List.mem_append_left _ hq).trans
        (hlinks'.mono fun q hq => List.mem_append_right _ hq)

/-- Following the links puts the nodes back in the order of the links. -/
theorem putBack_eq {cs : List (Cell T)} {limit : Nat} {pending : Option Ref}
    (hpending : t.nodes.Segment pending cs none) (hnodup : (cs.map Cell.ref).Nodup)
    (hlimit : cs.length ≤ limit) :
    putBack hasher limit pending t = place t hasher (cs.map Cell.ref) := by
  induction cs generalizing t limit pending with
  | nil =>
    cases hpending
    cases limit <;> rfl
  | cons c cs ih =>
    obtain ⟨rfl, next, hn, hrest⟩ := hpending
    obtain ⟨limit, rfl⟩ : ∃ k, limit = k + 1 := ⟨limit - 1, by simp at hlimit; omega⟩
    obtain ⟨hcs, hnodup⟩ := List.nodup_cons.mp hnodup
    have hnext : t.nodes.next c.ref = next := by simp [Pool.next, hn]
    have hrest' : (t.pushFront (t.bucketOf (t.hashAt hasher c.ref)) c.ref).nodes.Segment next cs
        none := hrest.modify_of_notMem hcs _
    rw [putBack, hnext, ih hrest' hnodup (by simpa using hlimit)]
    rfl

/-! ## Both ways come to the same -/

theorem setNext_setNext (t : Table s T A) (q : Ref) (a b : Option Ref) :
    (t.setNext q a).setNext q b = t.setNext q b := by
  unfold setNext
  simp only [Pool.modify_modify]
  rfl

theorem setNext_comm (t : Table s T A) {p q : Ref} (hne : p ≠ q) (a b : Option Ref) :
    (t.setNext p a).setNext q b = (t.setNext q b).setNext p a := by
  unfold setNext
  simp only [Pool.modify_comm _ hne]

/-- A link out of a node that is going to be placed does not matter. -/
theorem place_setNext {qs : List Ref} {q : Ref} (hq : q ∈ qs) (t : Table s T A)
    (next : Option Ref) : place (t.setNext q next) hasher qs = place t hasher qs := by
  induction qs generalizing t with
  | nil => cases hq
  | cons p qs ih =>
    have hindex : (t.setNext q next).bucketOf ((t.setNext q next).hashAt hasher p) =
        t.bucketOf (t.hashAt hasher p) := by
      rw [hashAt_setNext]
      rfl
    unfold place at ih ⊢
    rw [List.foldl_cons, List.foldl_cons, hindex]
    by_cases hqp : q = p
    · subst hqp
      -- The node is placed now, with a link of its own.
      have hpush : ∀ i, (t.setNext q next).pushFront i q = t.pushFront i q := fun i =>
        congrArg (fun t : Table s T A => t.setHead i (some q))
          (t.setNext_setNext q next (t.buckets.head i))
      rw [hpush]
    · have hpush : ∀ i, (t.setNext q next).pushFront i p = (t.pushFront i p).setNext q next :=
        fun i => congrArg (fun t : Table s T A => t.setHead i (some p))
          (t.setNext_comm hqp next (t.buckets.head i))
      rw [hpush]
      exact ih ((List.mem_cons.mp hq).resolve_left hqp) _

theorem place_relinked {qs : List Ref} {nodes nodes' : Pool s.pool (Node T) A}
    (h : nodes.Relinked qs nodes') (t : Table s T A) :
    place { t with nodes := nodes' } hasher qs = place { t with nodes } hasher qs := by
  induction h with
  | refl nodes => rfl
  | @link nodes _ q hq next _ ih =>
    rw [ih]
    exact place_setNext hq { t with nodes } next

theorem Stores.relink_eq [Allocator A] {heap : Heap A} {rows : Rows T} {others : List (Loan A)}
    (h : t.Stores heap rows [] others) (hasher : Ref → T → UInt64) (count : Nat)
    (heap' : Heap A) : t.relink count hasher heap' = t.redistribute count hasher heap' := by
  unfold relink redistribute
  rcases HeapRow.alloc Shape.headLayout count t.delegate heap' with ⟨e | fresh, later⟩
  · rfl
  · have hnodup : (((List.range t.bucketCount).flatMap rows ++ []).map Cell.ref).Nodup := h.nodup
    have hnone : t.nodes.Segment none [] none := rfl
    obtain ⟨nodes, buckets, first, hrun, hseg, hlinks, hemptied⟩ := detach_eq
      (fun i _ => h.chains i) hnone List.nodup_range hnodup fun i _ => h.length_row_le i
    rw [List.append_nil] at hseg hnodup
    have hdelegate : nodes.delegate = t.nodes.delegate :=
      congrArg (fun books => books.2.2.2.2) hlinks.books
    have hreverse : (((List.range t.bucketCount).flatMap rows).reverse.map Cell.ref) =
        t.refs.reverse := by
      rw [h.refs_eq, List.map_reverse]
      rfl
    have hput : putBack hasher t.size first { t with nodes, buckets := (buckets.grow fresh).2 } =
        Table.place { t with nodes, buckets := (t.buckets.grow fresh).2 } hasher t.refs.reverse := by
      rw [hemptied.grow_eq, ← hreverse]
      refine putBack_eq hseg ?_ ?_
      · rw [List.map_reverse]
        exact List.nodup_reverse.mpr hnodup
      · rw [h.size_eq, List.append_nil, List.length_reverse]
        exact Nat.le_refl _
    have hplace : Table.place { t with nodes, buckets := (t.buckets.grow fresh).2 } hasher
        t.refs.reverse = Table.place { t with buckets := (t.buckets.grow fresh).2 } hasher
          t.refs.reverse := by
      refine place_relinked (hlinks.mono fun q hq => ?_)
        { t with buckets := (t.buckets.grow fresh).2 }
      rw [h.refs_eq]
      exact List.mem_reverse.mpr hq
    have hrelease : HeapRow.release? Shape.headLayout buckets.grown nodes.delegate later =
        HeapRow.release? Shape.headLayout t.buckets.grown t.nodes.delegate later := by
      rw [hdelegate, hemptied.grown]
    simp only [hrun, delegate]
    rw [← hplace, ← hput]
    exact congrArg (fun last => (_, _, last)) hrelease

end Table

end ArenaHash
