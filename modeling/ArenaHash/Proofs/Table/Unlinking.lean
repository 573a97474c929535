import ArenaHash.Proofs.Table.Removals

/-!
# Filtering and emptying by links alone

A table has no memory for a list of the nodes of a bucket, so a loop that takes nodes out of a chain
reads the link out of a node before the node may go, and goes on there. `Stores.filterByLinks_eq`
and `Stores.clearByLinks_eq`: in a table whose chains are sound this is what becomes of it when the
chain is read in advance (`filter`, `clear`), to the last slot and the last event. What is written
on the way misses the links that are still to be read: the entry and the link of a node before them,
and slots that were returned.
-/

namespace ArenaHash.Table

variable {s : Shape} {T A σ : Type} [Allocator A]

/-! ## The two loops -/

/-- Filters up to `limit` nodes from a link on, given the last node that stayed. -/
def filterFrom (keep : σ → T → Bool × T × σ) (index : Nat) :
    (limit : Nat) → (link prev : Option Ref) → σ → Table s T A → Heap A → σ × Table s T A × Heap A
  | 0, _, _, state, t, heap => (state, t, heap)
  | _ + 1, none, _, state, t, heap => (state, t, heap)
  | limit + 1, some h, prev, state, t, heap =>
    match t.node? h with
    | none => (state, t, heap)
    | some node =>
      let link := node.next
      let (kept, entry, state) := keep state node.entry
      let t := t.setEntry h entry
      if kept then filterFrom keep index limit link (some h) state t heap
      else
        let (t, heap) := t.unlink index prev h heap
        filterFrom keep index limit link prev state t heap

/-- Filters the entries in bucket order. -/
def filterByLinks (t : Table s T A) (keep : σ → T → Bool × T × σ) (state : σ) (heap : Heap A) :
    σ × Table s T A × Heap A :=
  (List.range t.bucketCount).foldl
    (fun (state, t, heap) index =>
      filterFrom keep index t.size (t.buckets.head index) none state t heap)
    (state, t, heap)

/-- Returns the slots of up to `limit` nodes from a link on. -/
def freeFrom : (limit : Nat) → (link : Option Ref) → Table s T A → Heap A → Table s T A × Heap A
  | 0, _, t, heap => (t, heap)
  | _ + 1, none, t, heap => (t, heap)
  | limit + 1, some h, t, heap =>
    let link := t.nodes.next h
    let (t, heap) := t.freeNode h heap
    freeFrom limit link t heap

/-- Takes the first link out of each bucket and returns the slots from there on. -/
def clearByLinks (t : Table s T A) (heap : Heap A) : Table s T A × Heap A :=
  (List.range t.bucketCount).foldl
    (fun (t, heap) index => freeFrom t.size (t.buckets.head index) (t.setHead index none) heap)
    (t, heap)

variable {t : Table s T A} {heap : Heap A} {rows : Rows T} {loose : List (Cell T)}
  {others : List (Loan A)}

/-! ## One chain -/

/-- The node of a cell of a row is linked to the next cell. -/
theorem Stores.node?_eq (h : t.Stores heap rows loose others) {i : Nat} {pre post : List (Cell T)}
    {c : Cell T} (hrow : rows i = pre ++ c :: post) :
    t.node? c.ref = some ⟨c.entry, post.head?.map Cell.ref, c.hash⟩ := by
  have hchain := h.chains i
  rw [hrow] at hchain
  obtain ⟨middle, -, -, next, hn, hrest⟩ := Pool.Segment.append.mp hchain
  exact hrest.head_eq ▸ hn

theorem Stores.filterFrom_eq (keep : σ → T → Bool × T × σ) {i limit : Nat}
    {pre cs : List (Cell T)} (state : σ) (h : t.Stores heap rows loose others)
    (hrow : rows i = pre ++ cs) (hlimit : cs.length ≤ limit) :
    filterFrom keep i limit (cs.head?.map Cell.ref) (pre.getLast?.map Cell.ref) state t heap =
      Table.filterChain keep i (cs.map Cell.ref) (pre.getLast?.map Cell.ref) state t heap := by
  induction cs generalizing t heap rows pre limit state with
  | nil => cases limit <;> rfl
  | cons c cs ih =>
    obtain ⟨limit, rfl⟩ : ∃ k, limit = k + 1 := ⟨limit - 1, by simp at hlimit; omega⟩
    have hlimit : cs.length ≤ limit := by simpa using hlimit
    have hnode := h.node?_eq hrow
    have hentry : t.entryAt? c.ref = some c.entry := by rw [entryAt?, hnode]; rfl
    obtain ⟨kept, entry, state', hkeep⟩ :
        ∃ kept entry state', keep state c.entry = (kept, entry, state') := ⟨_, _, _, rfl⟩
    simp only [List.head?_cons, Option.map_some, List.map_cons, filterFrom, Table.filterChain,
      hnode, hentry, hkeep]
    cases kept with
    | true =>
      have hrow' : rows.put i (pre ++ { c with entry } :: cs) i =
          (pre ++ [{ c with entry }]) ++ cs := by simp
      have hstays := ih state' (h.setEntry hrow entry) hrow' hlimit
      rw [List.getLast?_concat] at hstays
      exact hstays
    | false => exact ih state' (h.setEntry_unlink hrow entry) (Rows.put_self _ _ _) hlimit

/-- The links that are still to be read are those of cells whose slots were not returned yet. -/
theorem freeFrom_eq {cs : List (Cell T)} {limit : Nat} {link : Option Ref}
    (hlink : t.nodes.Segment link cs none) (hnodup : (cs.map Cell.ref).Nodup)
    (hlimit : cs.length ≤ limit) :
    freeFrom limit link t heap =
      (cs.map Cell.ref).foldl (fun (t, heap) h => t.freeNode h heap) (t, heap) := by
  induction cs generalizing t heap limit link with
  | nil =>
    cases hlink
    cases limit <;> rfl
  | cons c cs ih =>
    obtain ⟨rfl, next, hn, hrest⟩ := hlink
    obtain ⟨limit, rfl⟩ : ∃ k, limit = k + 1 := ⟨limit - 1, by simp at hlimit; omega⟩
    obtain ⟨hcs, hnodup⟩ := List.nodup_cons.mp hnodup
    have hnext : t.nodes.next c.ref = next := by simp [Pool.next, hn]
    have hrest' : (t.freeNode c.ref heap).1.nodes.Segment next cs none :=
      hrest.congr fun d hd =>
        t.nodes.read_free heap fun heq => hcs (heq ▸ List.mem_map_of_mem hd)
    rw [freeFrom, hnext]
    exact ih hrest' hnodup (by simpa using hlimit)

/-! ## All chains -/

namespace Stores

theorem filterByLinks_eq (h : t.Stores heap rows [] others) (keep : σ → T → Bool × T × σ)
    (state : σ) : t.filterByLinks keep state heap = t.filter keep state heap := by
  unfold filterByLinks Table.filter
  generalize List.range t.bucketCount = is
  induction is generalizing t heap rows state with
  | nil => rfl
  | cons i is ih =>
    have hrow : rows i = [] ++ rows i := rfl
    have hchain := h.filterFrom_eq keep state hrow (h.length_row_le i)
    rw [← h.head_eq, ← h.chain_eq] at hchain
    obtain ⟨t', heap', hrun, hs, -⟩ := h.filterChain keep state hrow
    rw [← h.chain_eq] at hrun
    rw [List.foldl_cons, List.foldl_cons]
    refine (congrArg (List.foldl _ · is) (hchain.trans hrun)).trans ?_
    exact (ih hs _).trans (congrArg (List.foldl _ · is) hrun).symm

theorem clearByLinks_eq (h : t.Stores heap rows [] others) :
    t.clearByLinks heap = t.clear heap := by
  have hrange : ∀ i ∈ List.range t.bucketCount, i < t.bucketCount := fun i => List.mem_range.mp
  unfold clearByLinks Table.clear
  generalize List.range t.bucketCount = is at hrange
  induction is generalizing t heap rows with
  | nil => rfl
  | cons i is ih =>
    obtain ⟨hi, his⟩ := List.forall_mem_cons.mp hrange
    have hbucket : freeFrom t.size (t.buckets.head i) (t.setHead i none) heap =
        t.clearBucket i heap := by
      have hnodup := (h.nodup_apart hi).sublist ((List.sublist_append_right _ _).map _)
      rw [List.append_nil] at hnodup
      rw [Table.clearBucket, h.chain_eq]
      exact freeFrom_eq (h.chains i) hnodup (h.length_row_le i)
    obtain ⟨t', heap', hrun, hs, hcount, -⟩ := h.clearBucket hi
    rw [List.foldl_cons, List.foldl_cons]
    refine (congrArg (List.foldl _ · is) (hbucket.trans hrun)).trans ?_
    exact (ih hs fun j hj => hcount ▸ his j hj).trans (congrArg (List.foldl _ · is) hrun).symm

end Stores

end ArenaHash.Table
