import ArenaHash.Proofs.Table.Edits
import ArenaHash.Table.Cursor
import Mathlib.Data.List.TakeWhile

/-!
# Walks

`Cursor.Ahead nodes c cs`: the cells that the walk still comes to are `cs`, in this order. A walk
starts with all cells ahead, each step takes the first of them, and a walk with nothing ahead has
ended. Overwriting the entry of a cell that the walk has passed does not disturb it. A walk along a
stretch of a chain is the same with `RunCursor.Ahead`.
-/

namespace ArenaHash

theorem HeadRow.toList_eq {P : Type} {r : HeadRow P} (h : r.sentinelEmpty = true) :
    r.toList = (List.range r.count).map r.head ++ [none] := by
  obtain ⟨hpos, hlast⟩ := r.sentinelEmpty_iff.mp h
  refine List.ext_getElem? ?_
  intro i
  unfold toList
  rw [Array.getElem?_toList]
  rcases Nat.lt_trichotomy i r.count with hi | hi | hi
  · have hs : i < r.slots.size := by
      unfold count at hi
      omega
    simp [List.getElem?_append, hi, head, hs]
  · rw [hi, List.getElem?_append_right (by simp)]
    simpa [count] using hlast
  · have hs : r.slots.size ≤ i := by
      unfold count at hi
      omega
    rw [List.getElem?_append_right (by simp; omega), Array.getElem?_eq_none hs,
      List.getElem?_eq_none]
    simp
    omega

namespace Pool

variable {p : Shape} {T A : Type} {nodes nodes' : Pool p (Node T) A}

/-- The chains from some heads on, one after the other. -/
def Chains (nodes : Pool p (Node T) A) : List (Option Ref) → List (Cell T) → Prop
  | [], cs => cs = []
  | head :: heads, cs =>
    ∃ ds es, cs = ds ++ es ∧ nodes.Segment head ds none ∧ nodes.Chains heads es

theorem Chains.congr {heads : List (Option Ref)} {cs : List (Cell T)} (h : nodes.Chains heads cs)
    (heq : ∀ c ∈ cs, nodes'.read c.ref = nodes.read c.ref) : nodes'.Chains heads cs := by
  induction heads generalizing cs with
  | nil => exact h
  | cons head heads ih =>
    obtain ⟨ds, es, rfl, hd, he⟩ := h
    exact ⟨ds, es, rfl, hd.congr fun c hc => heq c (List.mem_append_left _ hc),
      ih he fun c hc => heq c (List.mem_append_right _ hc)⟩

/-- The first cell of all is the first of the first chain that is not empty. -/
theorem Chains.first {heads : List (Option Ref)} {c : Cell T} {cs : List (Cell T)}
    (h : nodes.Chains heads (c :: cs)) :
    ∃ rest, Cursor.enter (heads ++ [none]) = some (c.ref, rest ++ [none]) ∧
      nodes.Chains (nodes.next c.ref :: rest) cs := by
  induction heads with
  | nil => cases h
  | cons head heads ih =>
    obtain ⟨ds, es, heq, hd, he⟩ := h
    cases ds with
    | nil =>
      cases hd
      obtain ⟨rest, henter, hrest⟩ := ih (heq ▸ he)
      refine ⟨rest, ?_, hrest⟩
      rw [← henter]
      cases heads <;> rfl
    | cons d ds =>
      cases heq
      have hnext := Segment.next_eq (show nodes.Segment _ ([] ++ c :: ds) none from hd)
      obtain ⟨rfl, -⟩ := hd
      refine ⟨heads, ?_, ds, es, rfl, hnext, he⟩
      cases heads <;> rfl

end Pool

namespace Cursor

variable {s : Table.Shape} {T A : Type} {t t' : Table s T A} {c : Cursor} {cs : List (Cell T)}

def Ahead (t : Table s T A) (c : Cursor) (cs : List (Cell T)) : Prop :=
  c.remaining = cs.length ∧
    ∃ heads, c.buckets = heads ++ [none] ∧ t.nodes.Chains (c.next :: heads) cs

theorem Ahead.congr (h : Ahead t c cs)
    (heq : ∀ d ∈ cs, t'.nodes.read d.ref = t.nodes.read d.ref) : Ahead t' c cs := by
  obtain ⟨hr, heads, hb, hc⟩ := h
  exact ⟨hr, heads, hb, hc.congr heq⟩

theorem Ahead.step?_nil (h : Ahead t c []) : c.step? t = none := by
  obtain ⟨hr, heads, -, ds, es, heq, hd, -⟩ := h
  obtain ⟨rfl, rfl⟩ := List.append_eq_nil_iff.mp heq.symm
  have hnext : c.next = none := hd
  simp [step?, hnext, hr]

theorem Ahead.step?_cons {d : Cell T} (h : Ahead t c (d :: cs)) :
    ∃ next, c.step? t = some (d.ref, next) ∧ Ahead t next cs := by
  obtain ⟨hr, heads, hb, ds, es, heq, hd, he⟩ := h
  have hremaining : c.remaining - 1 = cs.length := by simp [hr]
  cases ds with
  | nil =>
    have hnext : c.next = none := hd
    obtain ⟨rest, henter, hrest⟩ := (show t.nodes.Chains heads (d :: cs) from heq ▸ he).first
    refine ⟨⟨rest ++ [none], t.nodes.next d.ref, c.remaining - 1⟩, ?_, hremaining, rest, rfl, hrest⟩
    simp [step?, hnext, hr, hb, henter]
  | cons e ds =>
    cases heq
    have hnext := Pool.Segment.next_eq (show t.nodes.Segment _ ([] ++ d :: ds) none from hd)
    refine ⟨{ c with next := t.nodes.next d.ref, remaining := c.remaining - 1 }, ?_, hremaining,
      heads, hb, ds, es, rfl, hnext, he⟩
    simp [step?, hd.1]

end Cursor

namespace RunCursor

variable {s : Table.Shape} {T A : Type} {t : Table s T A} {c : RunCursor} {cs : List (Cell T)}

def Ahead (t : Table s T A) (c : RunCursor) (cs : List (Cell T)) : Prop :=
  c.remaining = cs.length ∧ ∃ tail, t.nodes.Segment c.next cs tail

theorem Ahead.step?_nil (h : Ahead t c []) : c.step? t = none := if_pos h.1

theorem Ahead.step?_cons {d : Cell T} (h : Ahead t c (d :: cs)) :
    ∃ next, c.step? t = some (d.ref, next) ∧ Ahead t next cs := by
  obtain ⟨hr, tail, hd⟩ := h
  have hnext := Pool.Segment.next_eq (show t.nodes.Segment _ ([] ++ d :: cs) tail from hd)
  have hremaining : c.remaining - 1 = cs.length := by simp [hr]
  refine ⟨⟨t.nodes.next d.ref, c.remaining - 1⟩, ?_, hremaining, tail, hnext⟩
  simp [step?, hd.1, hr]

end RunCursor

namespace Table

variable {s : Shape} {T A : Type} [Allocator A] {t : Table s T A} {heap : Heap A} {rows : Rows T}
  {loose : List (Cell T)} {others : List (Loan A)}

theorem Stores.ahead (h : t.Stores heap rows [] others) :
    Cursor.Ahead t t.cursor (rows.all t.bucketCount) := by
  have hchains : ∀ is : List Nat,
      t.nodes.Chains (is.map t.buckets.head) (is.flatMap rows) := by
    intro is
    induction is with
    | nil => rfl
    | cons i is ih => exact ⟨rows i, is.flatMap rows, List.flatMap_cons, h.chains i, ih⟩
  refine ⟨?_, (List.range t.bucketCount).map t.buckets.head, ?_, [], _, rfl, rfl, hchains _⟩
  · rw [cursor, h.size_eq, List.append_nil]
  · exact HeadRow.toList_eq h.keeps.sound.sentinelEmpty

/-- A walk along a stretch starts at the first match, with the matches right after it ahead. -/
theorem Stores.runAhead (h : t.Stores heap rows loose others) (hash : UInt64) (test : T → Bool) :
    RunCursor.Ahead t (t.runCursor hash test)
      (((rows (t.bucketOf hash)).dropWhile (!Cell.isMatch hash test ·)).takeWhile
        (Cell.isMatch hash test)) := by
  have hlength : (t.equalRun hash test).length = _ :=
    (congrArg List.length (h.equalRun_eq hash test)).trans (List.length_map _)
  have hchain := h.chains (t.bucketOf hash)
  rw [← List.takeWhile_append_dropWhile (p := (!Cell.isMatch hash test ·))
    (l := rows (t.bucketOf hash))] at hchain
  obtain ⟨first, -, hfirst⟩ := Pool.Segment.append.mp hchain
  have hfind : t.find? hash test = first := by
    rw [h.find?_eq, List.find?_eq_head?_dropWhile_not, hfirst.head_eq]
  rw [← List.takeWhile_append_dropWhile (p := Cell.isMatch hash test)
    (l := (rows (t.bucketOf hash)).dropWhile (!Cell.isMatch hash test ·))] at hfirst
  obtain ⟨last, hmatches, -⟩ := Pool.Segment.append.mp hfirst
  refine ⟨hlength, last, ?_⟩
  rwa [runCursor, hfind]

/-- What is ahead does not change when the entry of the cell before is overwritten. -/
theorem Stores.ahead_setEntry (h : t.Stores heap rows [] others) {before after : List (Cell T)}
    {c : Cell T} {cursor : Cursor} (hall : rows.all t.bucketCount = before ++ c :: after)
    (hahead : cursor.Ahead t after) (entry : T) : cursor.Ahead (t.setEntry c.ref entry) after := by
  have hn := h.nodup
  rw [hall, List.append_nil, List.map_append, List.map_cons, List.nodup_append,
    List.nodup_cons] at hn
  refine hahead.congr fun d hd => Pool.read_modify_of_ne _ (fun heq => hn.2.1.1 ?_) _
  rw [heq]
  exact List.mem_map_of_mem hd

/-- The entry of a cell is overwritten, wherever the cell is. -/
theorem Stores.overwrite (h : t.Stores heap rows loose others) {before after : List (Cell T)}
    {c : Cell T} (hall : rows.all t.bucketCount = before ++ c :: after) (entry : T) :
    ∃ i pre post, rows i = pre ++ c :: post ∧
      (t.setEntry c.ref entry).Stores heap (rows.put i (pre ++ { c with entry } :: post)) loose
        others ∧
      (rows.put i (pre ++ { c with entry } :: post)).all t.bucketCount =
        before ++ { c with entry } :: after := by
  obtain ⟨i, hi, hc⟩ := rows.mem_all.mp (show c ∈ rows.all t.bucketCount by simp [hall])
  obtain ⟨pre, post, hrow⟩ := List.append_of_mem hc
  refine ⟨i, pre, post, hrow, h.setEntry hrow entry, ?_⟩
  have hsplit : rows.all t.bucketCount =
      (rows.before i ++ pre) ++ c :: (post ++ rows.after i t.bucketCount) := by
    rw [rows.all_eq hi, hrow]
    simp
  have hn : (rows.all t.bucketCount).Nodup :=
    (h.nodup.of_map).sublist (List.sublist_append_left _ loose)
  rw [hsplit, List.nodup_append, List.nodup_cons] at hn
  have hbefore : c ∉ rows.before i ++ pre := fun hc => hn.2.2 c hc c List.mem_cons_self rfl
  obtain ⟨rfl, -, rfl⟩ :=
    (List.append_cons_inj_of_notMem hbefore hn.2.1.1).mp (hsplit.symm.trans hall)
  rw [rows.all_put hi]
  simp

end Table

end ArenaHash
