import ArenaHash.Proofs.Pool.Resemblance
import ArenaHash.Proofs.Table.Removals
import ArenaHash.Table.Copy
import ArenaHash.Table.Cursor

/-!
# Tables over used slots

`t.Resembles u`: the tables differ in what is left in slots that have not been handed out, and in
nothing else. A table reaches its nodes from the heads of its buckets, and no link leads out of the
slots that were handed out, so both read alike (`chain_eq` and what follows it), every operation
answers the same and asks the same of the heap, and leaves tables that resemble each other again. A
copy has slots of its own: both have the same ones.
-/

namespace ArenaHash

/-- All slots but the last one are heads. -/
theorem HeadRow.exists_head {P : Type} {r : HeadRow P} {head : Option P}
    (h : head ∈ r.toList.dropLast) : ∃ i, r.head i = head := by
  obtain ⟨i, hi, rfl⟩ := List.mem_iff_getElem.mp h
  have hcount : i < r.count := by simpa [toList, count] using hi
  have hsize : i < r.slots.size := Nat.lt_of_lt_of_le hcount (Nat.sub_le _ _)
  refine ⟨i, ?_⟩
  rw [HeadRow.head, if_pos hcount, Array.getElem?_eq_getElem hsize, Option.join_some,
    List.getElem_dropLast]
  rfl

namespace Cursor

variable {p : Pool.Shape} {T A : Type}

/-- The walk leads to slots that have been handed out. -/
structure Within (c : Cursor) (nodes : Pool p (Node T) A) : Prop where
  next : ∀ q ∈ c.next, nodes.Owns q
  buckets : ∀ head ∈ c.buckets.dropLast, ∀ q ∈ head, nodes.Owns q

theorem Within.of_le {c : Cursor} {nodes nodes' : Pool p (Node T) A} (h : c.Within nodes)
    (hle : nodes.untouched ≤ nodes'.untouched) : c.Within nodes' where
  next q hq := Pool.owns_of_le hle (h.next q hq)
  buckets head hhead q hq := Pool.owns_of_le hle (h.buckets head hhead q hq)

theorem enter_within {nodes : Pool p (Node T) A} {heads rest : List (Option Ref)} {q : Ref}
    (h : enter heads = some (q, rest)) (hw : ∀ head ∈ heads.dropLast, ∀ r ∈ head, nodes.Owns r) :
    nodes.Owns q ∧ ∀ head ∈ rest.dropLast, ∀ r ∈ head, nodes.Owns r := by
  induction heads with
  | nil => cases h
  | cons head heads ih =>
    cases heads with
    | nil => cases head <;> cases h
    | cons head' heads =>
      rw [List.dropLast_cons_cons, List.forall_mem_cons] at hw
      cases head with
      | none => exact ih h hw.2
      | some r =>
        cases h
        exact ⟨hw.1 q rfl, hw.2⟩

end Cursor

namespace Table

variable {s : Shape} {T A : Type}

structure Resembles (t u : Table s T A) : Prop where
  same : u = { t with nodes := u.nodes }
  nodes : t.nodes.Resembles u.nodes
  heads : ∀ i, ∀ q ∈ t.buckets.head i, t.nodes.Owns q

namespace Resembles

variable {t u : Table s T A} {q : Ref}

theorem exists_nodes (h : t.Resembles u) : ∃ nodes, u = { t with nodes } := ⟨_, h.same⟩

/-! ## Reading -/

theorem bucketCount_eq (h : t.Resembles u) : u.bucketCount = t.bucketCount :=
  (congrArg bucketCount h.same).trans rfl

theorem delegate_eq (h : t.Resembles u) : u.delegate = t.delegate :=
  (congrArg Pool.delegate h.nodes.same).trans rfl

theorem overflowLive_eq (h : t.Resembles u) : u.nodes.overflowLive = t.nodes.overflowLive :=
  (congrArg Pool.overflowLive h.nodes.same).trans rfl

theorem buckets_eq (h : t.Resembles u) : u.buckets = t.buckets :=
  (congrArg buckets h.same).trans rfl

theorem usesOverflow_eq (h : t.Resembles u) : u.usesOverflow = t.usesOverflow := by
  rw [usesOverflow, usesOverflow, h.overflowLive_eq, h.buckets_eq]

theorem chain_eq (h : t.Resembles u) (i : Nat) : u.chain i = t.chain i := by
  obtain ⟨nodes', rfl⟩ := h.exists_nodes
  exact h.nodes.follow_eq t.size (h.heads i)

theorem owns_chain (h : t.Resembles u) {i : Nat} (hq : q ∈ t.chain i) : t.nodes.Owns q :=
  h.nodes.closed.owns_follow t.size (h.heads i) q hq

theorem refs_eq (h : t.Resembles u) : u.refs = t.refs := by
  unfold refs
  rw [h.bucketCount_eq]
  exact List.flatMap_congr fun i _ => h.chain_eq i

theorem owns_refs (h : t.Resembles u) (hq : q ∈ t.refs) : t.nodes.Owns q := by
  obtain ⟨i, -, hi⟩ := List.mem_flatMap.mp hq
  exact h.owns_chain hi

theorem node?_eq (h : t.Resembles u) (hq : t.nodes.Owns q) : u.node? q = t.node? q :=
  h.nodes.read_eq hq

theorem entryAt?_eq (h : t.Resembles u) (hq : t.nodes.Owns q) : u.entryAt? q = t.entryAt? q := by
  rw [entryAt?, entryAt?, h.node?_eq hq]

theorem toList_eq (h : t.Resembles u) : u.toList = t.toList := by
  unfold toList
  rw [h.refs_eq]
  exact List.filterMap_congr fun q hq => h.entryAt?_eq (h.owns_refs hq)

section Lookup

variable (hash : UInt64) (test : T → Bool)

theorem matchesAt_eq (h : t.Resembles u) (hq : t.nodes.Owns q) :
    u.matchesAt hash test q = t.matchesAt hash test q := by
  rw [matchesAt, matchesAt, h.node?_eq hq]

theorem bucketOf_eq (h : t.Resembles u) : u.bucketOf hash = t.bucketOf hash := by
  rw [bucketOf, bucketOf, h.bucketCount_eq]

theorem find?_eq (h : t.Resembles u) : u.find? hash test = t.find? hash test := by
  rw [find?, find?, h.bucketOf_eq, h.chain_eq]
  exact List.find?_congr fun q hq => h.matchesAt_eq hash test (h.owns_chain hq)

variable {hash test} in
theorem owns_find? (h : t.Resembles u) (hq : t.find? hash test = some q) : t.nodes.Owns q :=
  h.owns_chain (List.mem_of_find?_eq_some hq)

theorem count_eq (h : t.Resembles u) : u.count hash test = t.count hash test := by
  rw [count, count, h.bucketOf_eq, h.chain_eq]
  exact List.countP_congr fun q hq => by rw [h.matchesAt_eq hash test (h.owns_chain hq)]

theorem equalRun_eq (h : t.Resembles u) : u.equalRun hash test = t.equalRun hash test := by
  have hmatch : ∀ q ∈ t.chain (t.bucketOf hash),
      u.matchesAt hash test q = t.matchesAt hash test q := fun q hq =>
    h.matchesAt_eq hash test (h.owns_chain hq)
  rw [equalRun, equalRun, h.bucketOf_eq, h.chain_eq,
    dropWhile_congr fun q hq => congrArg (!·) (hmatch q hq)]
  exact takeWhile_congr fun q hq => hmatch q ((List.dropWhile_sublist _).mem hq)

theorem runCursor_eq (h : t.Resembles u) : u.runCursor hash test = t.runCursor hash test := by
  rw [runCursor, runCursor, h.find?_eq, h.equalRun_eq]

variable {hash test} in
theorem owns_equalRun (h : t.Resembles u) (hq : q ∈ t.equalRun hash test) : t.nodes.Owns q :=
  h.owns_chain ((List.dropWhile_sublist _).mem ((List.takeWhile_sublist _).mem hq))

end Lookup

theorem check_eq (h : t.Resembles u) (hasher : Ref → T → UInt64) :
    u.check hasher = t.check hasher := by
  obtain ⟨nodes', rfl⟩ := h.exists_nodes
  have hfollow : ∀ limit i, nodes'.follow limit (t.buckets.head i) =
      t.nodes.follow limit (t.buckets.head i) := fun limit i => h.nodes.follow_eq limit (h.heads i)
  have hlive : nodes'.live = t.nodes.live := (congrArg Pool.live h.nodes.same).trans rfl
  have hplaced : ∀ i, (t.nodes.follow (t.size + 1) (t.buckets.head i)).all
      (wellPlaced { t with nodes := nodes' } hasher i) =
        (t.nodes.follow (t.size + 1) (t.buckets.head i)).all (t.wellPlaced hasher i) := by
    intro i
    rw [List.all_eq, List.all_eq, decide_eq_decide]
    refine forall₂_congr fun q hq => ?_
    rw [wellPlaced, h.node?_eq (h.nodes.closed.owns_follow _ (h.heads i) q hq)]
    rfl
  unfold check
  simp only [hfollow, hlive, List.all_map, Function.comp_def, hplaced]
  rfl

/-! ## Walking -/

theorem cursor_eq (h : t.Resembles u) : u.cursor = t.cursor :=
  (congrArg cursor h.same).trans rfl

theorem within_cursor (h : t.Resembles u) : t.cursor.Within t.nodes where
  next := nofun
  buckets head hhead q hq := by
    obtain ⟨i, rfl⟩ := HeadRow.exists_head hhead
    exact h.heads i q hq

/-- A walk steps onto the same node and again leads to slots that have been handed out. -/
theorem step?_eq (h : t.Resembles u) {c : Cursor} (hc : c.Within t.nodes) :
    c.step? u = c.step? t ∧
      ∀ q c', c.step? t = some (q, c') → t.nodes.Owns q ∧ c'.Within t.nodes := by
  unfold Cursor.step?
  cases hnext : c.next with
  | some q =>
    have hq := hc.next q hnext
    simp only [h.nodes.next_eq hq]
    refine ⟨trivial, ?_⟩
    rintro q' c' ⟨⟩
    exact ⟨hq, h.nodes.closed.nexts q hq, hc.buckets⟩
  | none =>
    simp only
    split
    · exact ⟨rfl, nofun⟩
    · cases henter : Cursor.enter c.buckets with
      | none => exact ⟨rfl, nofun⟩
      | some entered =>
        obtain ⟨hq, hrest⟩ := Cursor.enter_within (T := T) (A := A) henter hc.buckets
        simp only [Option.map_some, h.nodes.next_eq hq]
        refine ⟨trivial, ?_⟩
        rintro q' c' ⟨⟩
        exact ⟨hq, h.nodes.closed.nexts _ hq, hrest⟩

theorem runStep?_eq (h : t.Resembles u) {c : RunCursor} (hc : ∀ q ∈ c.next, t.nodes.Owns q) :
    c.step? u = c.step? t ∧ ∀ q c', c.step? t = some (q, c') →
      t.nodes.Owns q ∧ ∀ r ∈ c'.next, t.nodes.Owns r := by
  unfold RunCursor.step?
  split
  · exact ⟨rfl, nofun⟩
  · cases hnext : c.next with
    | none => exact ⟨rfl, nofun⟩
    | some q =>
      have hq := hc q hnext
      simp only [Option.map_some, h.nodes.next_eq hq]
      refine ⟨trivial, ?_⟩
      rintro q' c' ⟨⟩
      exact ⟨hq, h.nodes.closed.nexts q hq⟩

/-! ## Changes to single nodes -/

theorem setHead (h : t.Resembles u) (i : Nat) {head : Option Ref}
    (hhead : ∀ q ∈ head, t.nodes.Owns q) : (t.setHead i head).Resembles (u.setHead i head) := by
  obtain ⟨nodes', rfl⟩ := h.exists_nodes
  refine ⟨rfl, h.nodes, fun j => ?_⟩
  rw [Table.setHead, Buckets.head_setHead]
  split
  · exact hhead
  · exact h.heads j

/-- The heads of both lead to slots that are still handed out. -/
theorem withNodes {nodes nodes' : Pool s.pool (Node T) A} (h : t.Resembles u)
    (hnodes : nodes.Resembles nodes') (hle : t.nodes.untouched ≤ nodes.untouched) :
    Resembles { t with nodes } { u with nodes := nodes' } := by
  obtain ⟨nodes₀, rfl⟩ := h.exists_nodes
  exact ⟨rfl, hnodes, fun i q hq => Pool.owns_of_le hle (h.heads i q hq)⟩

theorem setNext (h : t.Resembles u) (hq : t.nodes.Owns q) {next : Option Ref}
    (hnext : ∀ r ∈ next, t.nodes.Owns r) : (t.setNext q next).Resembles (u.setNext q next) :=
  h.withNodes (h.nodes.modify hq fun _ _ => hnext) (t.nodes.untouched_modify q _).ge

theorem setEntry (h : t.Resembles u) (hq : t.nodes.Owns q) (entry : T) :
    (t.setEntry q entry).Resembles (u.setEntry q entry) := by
  refine h.withNodes (h.nodes.modify hq fun n hn r hr => ?_) (t.nodes.untouched_modify q _).ge
  refine h.nodes.closed.nexts q hq r ?_
  rw [Pool.next, hn]
  exact hr

/-! ## Growth -/

theorem withGrowth (h : t.Resembles u) (growth : Growth) :
    Resembles { t with growth } { u with growth } := by
  obtain ⟨nodes', rfl⟩ := h.exists_nodes
  exact ⟨rfl, h.nodes, h.heads⟩

theorem hashAt_eq (h : t.Resembles u) (hasher : Ref → T → UInt64) (hq : t.nodes.Owns q) :
    u.hashAt hasher q = t.hashAt hasher q := by
  rw [hashAt, hashAt, h.node?_eq hq]

theorem head_eq (h : t.Resembles u) (i : Nat) : u.buckets.head i = t.buckets.head i := by
  rw [h.buckets_eq]

theorem pushFront (h : t.Resembles u) (i : Nat) (hq : t.nodes.Owns q) :
    (t.pushFront i q).Resembles (u.pushFront i q) := by
  unfold Table.pushFront
  rw [h.head_eq]
  refine (h.setNext hq (h.heads i)).setHead i ?_
  rintro r ⟨⟩
  exact Pool.owns_of_le (t.nodes.untouched_modify q _).ge hq

theorem place (h : t.Resembles u) (hasher : Ref → T → UInt64) {qs : List Ref}
    (hqs : ∀ q ∈ qs, t.nodes.Owns q) :
    (Table.place t hasher qs).Resembles (Table.place u hasher qs) := by
  have hfold : (Table.place t hasher qs).Resembles (Table.place u hasher qs) ∧
      t.nodes.untouched ≤ (Table.place t hasher qs).nodes.untouched := by
    unfold Table.place
    apply List.foldl_rel
      (r := fun t' u' : Table s T A => t'.Resembles u' ∧ t.nodes.untouched ≤ t'.nodes.untouched)
    · exact ⟨h, Nat.le_refl _⟩
    · rintro q hq t' u' ⟨h', hle⟩
      have hq' := Pool.owns_of_le hle (hqs q hq)
      rw [h'.hashAt_eq hasher hq', h'.bucketOf_eq]
      exact ⟨h'.pushFront _ hq', hle.trans (t'.nodes.untouched_modify q _).ge⟩
  exact hfold.1

variable [Allocator A] (heap : Heap A)

theorem redistribute (h : t.Resembles u) (count : Nat) (hasher : Ref → T → UInt64) :
    Repeats Resembles (t.redistribute count hasher heap) (u.redistribute count hasher heap) := by
  unfold Table.redistribute
  rw [h.delegate_eq, h.refs_eq]
  rcases halloc : HeapRow.alloc Shape.headLayout count t.delegate heap with ⟨e | fresh, later⟩
  · exact ⟨rfl, h, rfl⟩
  · obtain ⟨nodes', rfl⟩ := h.exists_nodes
    have hgrown : Resembles { t with buckets := (t.buckets.grow fresh).2 }
        { t with nodes := nodes', buckets := (t.buckets.grow fresh).2 } := by
      refine ⟨rfl, h.nodes, fun i q hq => ?_⟩
      have hempty : fresh.row.head i = none := by
        rw [(HeapRow.request_of_alloc_ok halloc).1, HeadRow.head_empty]
      cases hq.symm.trans hempty
    exact ⟨rfl, hgrown.place hasher fun q hq => h.owns_refs (List.mem_reverse.mp hq), rfl⟩

theorem makeRoom (h : t.Resembles u) (hasher : Ref → T → UInt64) :
    Repeats Resembles (t.makeRoom hasher heap) (u.makeRoom hasher heap) := by
  have hadvise : u.growth.advise u.bucketCount u.size 1 = t.growth.advise t.bucketCount t.size 1 :=
    (congrArg (fun t => t.growth.advise t.bucketCount t.size 1) h.same).trans rfl
  unfold Table.makeRoom
  rw [hadvise]
  split
  · split
    · exact ⟨rfl, h.withGrowth _, rfl⟩
    · next count growth _ =>
      obtain ⟨a, m, m', later, ho, ho', hm⟩ :=
        ((h.withGrowth growth).redistribute heap count hasher).elim
      simp only [ho, ho']
      cases a with
      | ok => exact ⟨rfl, hm, rfl⟩
      | error e =>
        have hgrowth : m'.growth.retarget m'.bucketCount = m.growth.retarget m.bucketCount :=
          (congrArg (fun t => t.growth.retarget t.bucketCount) hm.same).trans rfl
        simp only [hgrowth]
        exact ⟨rfl, hm.withGrowth _, rfl⟩
  · exact ⟨rfl, h, rfl⟩

/-! ## Insertion -/

theorem newNode_cases (h : t.Resembles u) (node : Node T)
    (hnode : ∀ r ∈ node.next, t.nodes.Owns r) :
    (∃ e later, t.newNode node heap = (.error e, t, later) ∧
        u.newNode node heap = (.error e, u, later)) ∨
      ∃ q m m' later, t.newNode node heap = (.ok q, m, later) ∧
        u.newNode node heap = (.ok q, m', later) ∧ m.Resembles m' ∧ m.nodes.Owns q ∧
        ∀ r, t.nodes.Owns r → m.nodes.Owns r := by
  unfold newNode
  rw [h.nodes.alloc_eq heap]
  rcases halloc : t.nodes.alloc heap with ⟨e | q, nodes, later⟩
  · have hnodes : nodes = t.nodes := by
      have hcases := t.nodes.allocation heap
      rw [halloc] at hcases
      cases hcases <;> rfl
    subst hnodes
    refine .inl ⟨e, later, rfl, ?_⟩
    simp only [← h.nodes.same]
  · obtain ⟨hle, hwrite⟩ := h.nodes.alloc_ok halloc
    obtain ⟨howns, hsame⟩ := hwrite node hnode
    have hle' : t.nodes.untouched ≤ (nodes.write q node).untouched :=
      hle.trans (nodes.untouched_write q node).ge
    refine .inr ⟨q, _, _, later, rfl, rfl, ?_, howns, fun r => Pool.owns_of_le hle'⟩
    obtain ⟨nodes', rfl⟩ := h.exists_nodes
    exact ⟨rfl, hsame, fun i r hr => Pool.owns_of_le hle' (h.heads i r hr)⟩

theorem linkFront (h : t.Resembles u) (hash : UInt64) (entry : T) :
    Repeats Resembles (t.linkFront hash entry heap) (u.linkFront hash entry heap) := by
  unfold Table.linkFront
  simp only [h.bucketOf_eq, h.head_eq]
  rcases h.newNode_cases heap
      ⟨entry, t.buckets.head (t.bucketOf hash), s.caching.keep hash⟩ (h.heads _) with
    ⟨e, later, ho, ho'⟩ | ⟨q, m, m', later, ho, ho', hm, hq, -⟩
  · simp only [ho, ho']
    exact ⟨rfl, h, rfl⟩
  · simp only [ho, ho']
    exact ⟨rfl, hm.setHead _ (by rintro r ⟨⟩; exact hq), rfl⟩

/-- The node of a new entry is in a slot that was handed out. -/
theorem owns_linkFront (h : t.Resembles u) {hash : UInt64} {entry : T} {m : Table s T A}
    {later : Heap A} (hr : t.linkFront hash entry heap = (.ok q, m, later)) : m.nodes.Owns q := by
  unfold Table.linkFront at hr
  rcases h.newNode_cases heap
      ⟨entry, t.buckets.head (t.bucketOf hash), s.caching.keep hash⟩ (h.heads _) with
    ⟨e, later, ho, -⟩ | ⟨q, m, m', later, ho, -, -, hq, -⟩
  · simp only [ho] at hr
    cases hr
  · simp only [ho] at hr
    cases hr
    exact hq

theorem linkAfter (h : t.Resembles u) {first : Ref} (hfirst : t.nodes.Owns first) (hash : UInt64)
    (entry : T) :
    Repeats Resembles (t.linkAfter first hash entry heap) (u.linkAfter first hash entry heap) := by
  unfold Table.linkAfter
  simp only [h.nodes.next_eq hfirst]
  rcases h.newNode_cases heap ⟨entry, t.nodes.next first, s.caching.keep hash⟩
      (h.nodes.closed.nexts first hfirst) with
    ⟨e, later, ho, ho'⟩ | ⟨q, m, m', later, ho, ho', hm, hq, hkept⟩
  · simp only [ho, ho']
    exact ⟨rfl, h, rfl⟩
  · simp only [ho, ho']
    exact ⟨rfl, hm.setNext (hkept first hfirst) (by rintro r ⟨⟩; exact hq), rfl⟩

variable (hash : UInt64) (entry : T) (test : T → Bool) (hasher : Ref → T → UInt64)

theorem insertFront (h : t.Resembles u) :
    Repeats Resembles (t.insertFront hash entry hasher heap)
      (u.insertFront hash entry hasher heap) := by
  unfold Table.insertFront
  obtain ⟨a, m, m', later, ho, ho', hm⟩ := (h.makeRoom heap hasher).elim
  simp only [ho, ho']
  cases a with
  | ok => exact hm.linkFront later hash entry
  | error e => exact ⟨rfl, hm, rfl⟩

variable {heap hash entry hasher} in
theorem owns_insertFront (h : t.Resembles u) {m : Table s T A} {later : Heap A}
    (hr : t.insertFront hash entry hasher heap = (.ok q, m, later)) : m.nodes.Owns q := by
  unfold Table.insertFront at hr
  obtain ⟨a, room, room', middle, ho, -, hm⟩ := (h.makeRoom heap hasher).elim
  simp only [ho] at hr
  cases a with
  | ok => exact hm.owns_linkFront middle hr
  | error e => cases hr

theorem insertBeside (h : t.Resembles u) :
    Repeats Resembles (t.insertBeside hash entry test hasher heap)
      (u.insertBeside hash entry test hasher heap) := by
  unfold Table.insertBeside
  obtain ⟨a, m, m', later, ho, ho', hm⟩ := (h.makeRoom heap hasher).elim
  simp only [ho, ho']
  cases a with
  | ok =>
    simp only [hm.find?_eq]
    split
    · next first hfirst => exact hm.linkAfter later (hm.owns_find? hfirst) hash entry
    · exact hm.linkFront later hash entry
  | error e => exact ⟨rfl, hm, rfl⟩

/-! ## Removal -/

theorem freeNode (h : t.Resembles u) (hq : t.nodes.Owns q) :
    Echoes Resembles (t.freeNode q heap) (u.freeNode q heap) := by
  obtain ⟨hnodes, hheap⟩ := h.nodes.free hq heap
  obtain ⟨nodes', rfl⟩ := h.exists_nodes
  exact ⟨⟨rfl, hnodes, fun i r hr =>
    Pool.owns_of_le (t.nodes.untouched_free q heap).ge (h.heads i r hr)⟩, hheap⟩

theorem unlink (h : t.Resembles u) (i : Nat) {prev : Option Ref}
    (hprev : ∀ p ∈ prev, t.nodes.Owns p) (hq : t.nodes.Owns q) :
    Echoes Resembles (t.unlink i prev q heap) (u.unlink i prev q heap) := by
  have hnext := h.nodes.closed.nexts q hq
  unfold Table.unlink
  simp only [h.nodes.next_eq hq]
  cases prev with
  | none => exact (h.setHead i hnext).freeNode heap hq
  | some p =>
    exact (h.setNext (hprev p rfl) hnext).freeNode heap
      (Pool.owns_of_le (t.nodes.untouched_modify p _).ge hq)

theorem untouched_unlink (t : Table s T A) (i : Nat) (prev : Option Ref) (q : Ref) :
    (t.unlink i prev q heap).1.nodes.untouched = t.nodes.untouched := by
  unfold Table.unlink
  cases prev with
  | none => exact t.nodes.untouched_free q heap
  | some p => exact (Pool.untouched_free _ q heap).trans (t.nodes.untouched_modify p _)

theorem erase (h : t.Resembles u) :
    Repeats Resembles (t.erase hash test heap) (u.erase hash test heap) := by
  have hseek : seek (u.matchesAt hash test) none (t.chain (t.bucketOf hash)) =
      seek (t.matchesAt hash test) none (t.chain (t.bucketOf hash)) :=
    seek_congr (fun q hq => h.matchesAt_eq hash test (h.owns_chain hq)) none
  unfold Table.erase
  simp only [h.bucketOf_eq, h.chain_eq, hseek]
  split
  · next prev q hfound =>
    obtain ⟨hq, hprev⟩ := mem_of_seek hfound
    have howns := h.owns_chain hq
    refine ⟨h.entryAt?_eq howns, h.unlink heap _ (fun p hp => ?_) howns⟩
    exact h.owns_chain ((hprev p hp).resolve_left nofun)
  · exact ⟨rfl, h, rfl⟩

theorem eraseUpTo (h : t.Resembles u) (limit : Nat) :
    Repeats Resembles (eraseUpTo hash test limit t heap) (eraseUpTo hash test limit u heap) := by
  induction limit generalizing t u heap with
  | zero => exact ⟨rfl, h, rfl⟩
  | succ limit ih =>
    unfold Table.eraseUpTo
    obtain ⟨a, m, m', later, ho, ho', hm⟩ := (h.erase heap hash test).elim
    simp only [ho, ho']
    cases a with
    | none => exact ⟨rfl, hm, rfl⟩
    | some e =>
      obtain ⟨ha, hrest⟩ := ih later hm
      exact ⟨congrArg (· + 1) ha, hrest⟩

theorem eraseAll (h : t.Resembles u) :
    Repeats Resembles (t.eraseAll hash test heap) (u.eraseAll hash test heap) := by
  have hsize : u.size = t.size := (congrArg size h.same).trans rfl
  unfold Table.eraseAll
  rw [hsize]
  exact h.eraseUpTo heap hash test t.size

theorem filterChain {σ : Type} (keep : σ → T → Bool × T × σ) (i : Nat) {qs : List Ref}
    {prev : Option Ref} (state : σ) (h : t.Resembles u) (hqs : ∀ q ∈ qs, t.nodes.Owns q)
    (hprev : ∀ p ∈ prev, t.nodes.Owns p) :
    Repeats Resembles (filterChain keep i qs prev state t heap)
      (filterChain keep i qs prev state u heap) := by
  induction qs generalizing prev state t u heap with
  | nil => exact ⟨rfl, h, rfl⟩
  | cons q qs ih =>
    obtain ⟨hq, hqs⟩ := List.forall_mem_cons.mp hqs
    unfold Table.filterChain
    rw [h.entryAt?_eq hq]
    cases t.entryAt? q with
    | none => exact ih heap state h hqs hprev
    | some entry =>
      simp only
      rcases keep state entry with ⟨kept, entry', state'⟩
      have hset := h.setEntry hq entry'
      have hle : t.nodes.untouched ≤ (t.setEntry q entry').nodes.untouched :=
        (t.nodes.untouched_modify q _).ge
      simp only
      split
      · refine ih heap state' hset (fun r hr => Pool.owns_of_le hle (hqs r hr)) ?_
        rintro p ⟨⟩
        exact Pool.owns_of_le hle hq
      · obtain ⟨hstate, hheap⟩ := hset.unlink heap i
          (fun p hp => Pool.owns_of_le hle (hprev p hp)) (Pool.owns_of_le hle hq)
        have hle' := hle.trans (untouched_unlink heap (t.setEntry q entry') i prev q).ge
        rw [hheap]
        exact ih _ state' hstate (fun r hr => Pool.owns_of_le hle' (hqs r hr))
          fun p hp => Pool.owns_of_le hle' (hprev p hp)

theorem filter {σ : Type} (keep : σ → T → Bool × T × σ) (state : σ) (h : t.Resembles u) :
    Repeats Resembles (t.filter keep state heap) (u.filter keep state heap) := by
  unfold Table.filter
  rw [h.bucketCount_eq]
  apply List.foldl_rel (r := Repeats Resembles)
  · exact ⟨rfl, h, rfl⟩
  · rintro i - ⟨state, t, heap⟩ ⟨state', u, heap'⟩ ⟨rfl, h, rfl⟩
    simp only [h.chain_eq]
    exact h.filterChain heap' keep i state' (fun q => h.owns_chain) nofun

theorem pop (h : t.Resembles u) (position : Nat) :
    (u.pop position heap).1 = (t.pop position heap).1 ∧
      Repeats Resembles (t.pop position heap).2 (u.pop position heap).2 := by
  unfold Table.pop
  simp only [h.head_eq, h.bucketCount_eq]
  split
  · next i q hfound =>
    obtain ⟨j, -, hj⟩ := List.exists_of_findSome?_eq_some hfound
    obtain ⟨q', hhead, hpair⟩ := Option.map_eq_some_iff.mp hj
    cases hpair
    have hq := h.heads i q hhead
    rw [h.entryAt?_eq hq, h.nodes.next_eq hq]
    exact ⟨rfl, rfl, (h.setHead i (h.nodes.closed.nexts q hq)).freeNode heap hq⟩
  · exact ⟨rfl, rfl, h, rfl⟩

theorem clearBucket (h : t.Resembles u) (i : Nat) :
    Echoes Resembles (t.clearBucket i heap) (u.clearBucket i heap) := by
  have hfold : Echoes Resembles (t.clearBucket i heap) (u.clearBucket i heap) ∧
      t.nodes.untouched ≤ (t.clearBucket i heap).1.nodes.untouched := by
    unfold Table.clearBucket
    rw [h.chain_eq]
    apply List.foldl_rel (r := fun out out' : Table s T A × Heap A =>
      Echoes Resembles out out' ∧ t.nodes.untouched ≤ out.1.nodes.untouched)
    · exact ⟨⟨h.setHead i nofun, rfl⟩, Nat.le_refl _⟩
    · rintro q hq ⟨t', heap⟩ ⟨u', heap'⟩ ⟨⟨h', rfl⟩, hle⟩
      exact ⟨h'.freeNode heap' (Pool.owns_of_le hle (h.owns_chain hq)),
        hle.trans (t'.nodes.untouched_free q heap').ge⟩
  exact hfold.1

theorem clear (h : t.Resembles u) : Echoes Resembles (t.clear heap) (u.clear heap) := by
  unfold Table.clear
  rw [h.bucketCount_eq]
  apply List.foldl_rel (r := Echoes Resembles)
  · exact ⟨h, rfl⟩
  · rintro i - ⟨t, heap⟩ ⟨u, heap'⟩ ⟨h, rfl⟩
    exact h.clearBucket heap' i

omit [Allocator A] in
theorem shrink (h : t.Resembles u) : Echoes Resembles (t.shrink heap) (u.shrink heap) := by
  have hdelegate := h.delegate_eq
  obtain ⟨nodes', rfl⟩ := h.exists_nodes
  refine ⟨⟨rfl, h.nodes, fun i q hq => ?_⟩, ?_⟩
  · cases hq.symm.trans (HeadRow.head_fill_none t.buckets.inline i)
  · unfold Table.shrink
    rw [hdelegate]

theorem dispose_eq (h : t.Resembles u) : u.dispose heap = t.dispose heap := by
  obtain ⟨hstate, hheap⟩ := h.clear heap
  unfold dispose
  simp only [hheap]
  exact (hstate.shrink (t.clear heap).2).heap

omit [Allocator A] in
/-- Without any slot handed out and without any chain. -/
theorem forgotten (h : t.Resembles u) (size : Nat) (growth : Growth) :
    Resembles { t with nodes := t.nodes.forget, buckets := t.buckets.shrink.2, size, growth }
      { u with nodes := u.nodes.forget, buckets := u.buckets.shrink.2, size, growth } := by
  obtain ⟨nodes', rfl⟩ := h.exists_nodes
  refine ⟨rfl, h.nodes.forget, fun i q hq => ?_⟩
  cases hq.symm.trans (HeadRow.head_fill_none t.buckets.inline i)

theorem renew (h : t.Resembles u) : Echoes Resembles (t.renew heap) (u.renew heap) := by
  obtain ⟨hstate, hheap⟩ := h.clear heap
  unfold Table.renew
  simp only [hheap]
  generalize (t.clear heap).1 = m, (u.clear heap).1 = m' at hstate
  obtain ⟨nodes', rfl⟩ := hstate.exists_nodes
  exact ⟨hstate.forgotten m.size _, (hstate.shrink _).heap⟩

omit [Allocator A] in
theorem abandon (h : t.Resembles u) : Echoes Resembles (t.abandon heap) (u.abandon heap) := by
  have hheap := (h.shrink heap).heap
  obtain ⟨nodes', rfl⟩ := h.exists_nodes
  exact ⟨h.forgotten 0 _, hheap⟩

/-! ## Settings -/

omit [Allocator A] in
theorem setMaxLoad (h : t.Resembles u) (maxLoad : Binary32) :
    (t.setMaxLoad maxLoad).Resembles (u.setMaxLoad maxLoad) := by
  have hgrowth : u.growth.setMaxLoad? maxLoad u.bucketCount =
      t.growth.setMaxLoad? maxLoad t.bucketCount :=
    (congrArg (fun t => t.growth.setMaxLoad? maxLoad t.bucketCount) h.same).trans rfl
  unfold Table.setMaxLoad
  rw [hgrowth]
  split
  · split
    · exact h.withGrowth _
    · exact h
  · exact h

theorem setDelegate (h : t.Resembles u) (delegate : A) :
    (u.setDelegate delegate).1 = (t.setDelegate delegate).1 ∧
      (t.setDelegate delegate).2.Resembles (u.setDelegate delegate).2 := by
  obtain ⟨ha, hnodes⟩ := h.nodes.setDelegate delegate
  have hle : t.nodes.untouched ≤ (t.nodes.setDelegate delegate).2.untouched := by
    unfold Pool.setDelegate
    split <;> rfl
  unfold Table.setDelegate
  rw [h.delegate_eq, h.overflowLive_eq, h.buckets_eq]
  split
  · exact ⟨rfl, h⟩
  · exact ⟨ha, h.buckets_eq ▸ h.withNodes hnodes hle⟩

/-! ## Copies -/

theorem copyChain_eq (h : t.Resembles u) (i : Nat) {qs : List Ref} (hqs : ∀ q ∈ qs, t.nodes.Owns q)
    (tail : Option Ref) (copy : Table s T A) :
    copyChain u i qs tail copy heap = copyChain t i qs tail copy heap := by
  induction qs generalizing tail copy heap with
  | nil => rfl
  | cons q qs ih =>
    obtain ⟨hq, hqs⟩ := List.forall_mem_cons.mp hqs
    unfold copyChain
    rw [h.node?_eq hq]
    split
    · exact ih heap hqs tail copy
    · split
      · rfl
      · exact ih _ hqs _ _

theorem copyChains_eq (h : t.Resembles u) (is : List Nat) (copy : Table s T A) :
    u.copyChains is copy heap = t.copyChains is copy heap := by
  induction is generalizing copy heap with
  | nil => rfl
  | cons i is ih =>
    unfold copyChains
    rw [h.chain_eq, h.copyChain_eq heap i fun q => h.owns_chain]
    split
    · rfl
    · exact ih _ _

theorem copy_eq (h : t.Resembles u) : u.copy heap = t.copy heap := by
  have hbase : u.copyBase heap = t.copyBase heap := by
    have hdelegate := h.delegate_eq
    obtain ⟨nodes', rfl⟩ := h.exists_nodes
    unfold copyBase
    rw [hdelegate]
    rfl
  unfold copy
  rw [hbase, h.bucketCount_eq]
  simp only [h.copyChains_eq]

end Resembles

end Table
end ArenaHash
