import ArenaHash.Proofs.Table.Filtering

/-!
# What becomes of the entries

A fate says of each slot which entry is left in it, or `none` if its node went. `t.Fared fate t'`:
each node of `t` has met its fate in `t'`. One that stays is in the slot it was in, with the stored
hash that it had, wherever its chain leads now. What operations do to rows gives the fates: most
address the entries in a few slots (`fateOf`), some go through all of them in order (`fatesAlong`).
-/

namespace ArenaHash

namespace Table

variable {s : Shape} {T A : Type} {t t' t'' : Table s T A} {fate fate' : Ref → Option T}

/-- The entries in the slots `qs` are edited or go, all others are as they were. -/
def fateOf (t : Table s T A) (qs : List Ref) (edit : T → Option T) (q : Ref) : Option T :=
  (t.entryAt? q).bind fun entry => if qs.contains q then edit entry else some entry

theorem fateOf_of_notMem {qs : List Ref} {edit : T → Option T} {q : Ref} (h : q ∉ qs) :
    t.fateOf qs edit q = t.entryAt? q := by
  simp [fateOf, h]

theorem isSome_fateOf {qs : List Ref} {edit : T → Option T} {q : Ref}
    (h : (t.entryAt? q).isSome) (hedit : ∀ entry, (edit entry).isSome) :
    (t.fateOf qs edit q).isSome := by
  obtain ⟨entry, hentry⟩ := Option.isSome_iff_exists.mp h
  rw [fateOf, hentry, Option.bind_some]
  split
  · exact hedit entry
  · rfl

structure Fared (t : Table s T A) (fate : Ref → Option T) (t' : Table s T A) : Prop where
  gone : ∀ q ∈ t.refs, fate q = none → q ∉ t'.refs
  stays : ∀ q ∈ t.refs, ∀ entry, fate q = some entry →
    q ∈ t'.refs ∧ t'.contentAt q = (t.contentAt q).map fun content => (entry, content.2)

theorem Fared.congr (h : t.Fared fate t') (hfate : ∀ q ∈ t.refs, fate' q = fate q) :
    t.Fared fate' t' where
  gone q hq hnone := h.gone q hq ((hfate q hq).symm.trans hnone)
  stays q hq entry hentry := h.stays q hq entry ((hfate q hq).symm.trans hentry)

theorem entryAt?_eq_contentAt (t : Table s T A) (q : Ref) :
    t.entryAt? q = (t.contentAt q).map Prod.fst := by
  unfold entryAt? contentAt
  cases t.node? q <;> rfl

theorem Fared.entryAt? (h : t.Fared fate t') {q : Ref} (hq : q ∈ t.refs)
    (hsome : (t.entryAt? q).isSome) {entry : T} (hentry : fate q = some entry) :
    t'.entryAt? q = some entry := by
  rw [entryAt?_eq_contentAt] at hsome ⊢
  rw [(h.stays q hq entry hentry).2]
  cases hcontent : t.contentAt q with
  | none =>
    rw [hcontent] at hsome
    cases hsome
  | some content => rfl

/-- Entries that all stay meet the fate that they meet afterwards. -/
theorem Fared.trans (h : t.Fared fate t') (hall : ∀ q ∈ t.refs, (fate q).isSome)
    (h' : t'.Fared fate' t'') : t.Fared fate' t'' where
  gone q hq hnone := by
    obtain ⟨entry, hentry⟩ := Option.isSome_iff_exists.mp (hall q hq)
    exact h'.gone q (h.stays q hq entry hentry).1 hnone
  stays q hq entry' hentry' := by
    obtain ⟨entry, hentry⟩ := Option.isSome_iff_exists.mp (hall q hq)
    obtain ⟨hq', hcontent⟩ := h.stays q hq entry hentry
    obtain ⟨hq'', hcontent'⟩ := h'.stays q hq' entry' hentry'
    refine ⟨hq'', hcontent'.trans ?_⟩
    rw [hcontent]
    cases t.contentAt q <;> rfl

section

variable [Allocator A] {heap heap' : Heap A} {rows rows' : Rows T} {others others' : List (Loan A)}

namespace Stores

variable (h : t.Stores heap rows [] others)
include h

theorem mem_refs {q : Ref} : q ∈ t.refs ↔ ∃ i, ∃ c ∈ rows i, c.ref = q := by
  rw [h.refs_eq, List.mem_map]
  constructor
  · rintro ⟨c, hc, rfl⟩
    obtain ⟨i, -, hi⟩ := rows.mem_all.mp hc
    exact ⟨i, c, hi, rfl⟩
  · rintro ⟨i, c, hc, rfl⟩
    exact ⟨c, h.mem_all hc, rfl⟩

/-- There is an entry in the slot of each node. -/
theorem isSome_entryAt? {q : Ref} (hq : q ∈ t.refs) : (t.entryAt? q).isSome := by
  obtain ⟨i, c, hc, rfl⟩ := h.mem_refs.mp hq
  rw [h.entryAt?_eq (h.mem_cells hc)]
  rfl

theorem filterMap_fateOf {i : Nat} {qs : List Ref} {edit : T → Option T} :
    (rows i).filterMap (judged (t.fateOf qs edit)) = (rows i).filterMap fun c =>
      if qs.contains c.ref then (edit c.entry).map fun entry => { c with entry } else some c := by
  refine List.filterMap_congr fun c hc => ?_
  rw [judged, fateOf, h.entryAt?_eq (h.mem_cells hc), Option.bind_some]
  split <;> rfl

/-- The cells afterwards are those that stay and new ones. -/
theorem fared (h' : t'.Stores heap' rows' [] others') (new : List (Cell T))
    (hp : (rows'.all t'.bucketCount).Perm
      (new ++ (rows.all t.bucketCount).filterMap (judged fate)))
    (hnew : ∀ c ∈ new, c.ref ∉ t.refs) : t.Fared fate t' where
  gone q hq hnone hq' := by
    obtain ⟨i, d, hd, rfl⟩ := h'.mem_refs.mp hq'
    rcases List.mem_append.mp (hp.mem_iff.mp (h'.mem_all hd)) with hd | hd
    · exact hnew d hd hq
    · obtain ⟨c, -, hjudged⟩ := List.mem_filterMap.mp hd
      obtain ⟨entry, hentry, rfl⟩ := Option.map_eq_some_iff.mp hjudged
      cases hnone.symm.trans hentry
  stays q hq entry hentry := by
    obtain ⟨i, c, hc, rfl⟩ := h.mem_refs.mp hq
    have hleft : { c with entry } ∈ rows'.all t'.bucketCount :=
      hp.mem_iff.mpr (List.mem_append_right _ (List.mem_filterMap.mpr
        ⟨c, h.mem_all hc, by rw [judged, hentry]; rfl⟩))
    obtain ⟨j, -, hj⟩ := rows'.mem_all.mp hleft
    refine ⟨h'.mem_refs.mpr ⟨j, _, hj, rfl⟩, (h'.contentAt_eq hj).trans ?_⟩
    rw [h.contentAt_eq hc]
    rfl

/-- Without a new cell, and with every cell in the row it was in. -/
theorem fared_of_rows (h' : t'.Stores heap' rows' [] others')
    (hcount : t'.bucketCount = t.bucketCount)
    (hrows : ∀ i, rows' i = (rows i).filterMap (judged fate)) : t.Fared fate t' := by
  refine h.fared h' [] (.of_eq ?_) nofun
  rw [List.nil_append, hcount, Rows.all, Rows.all, List.filterMap_flatMap]
  exact List.flatMap_congr fun i _ => hrows i

theorem filterMap_entryAt? {cs : List (Cell T)} (hcs : ∀ c ∈ cs, c ∈ rows.all t.bucketCount) :
    cs.filterMap (judged t.entryAt?) = cs := by
  refine (List.filterMap_congr fun c hc => ?_).trans List.filterMap_some
  rw [judged, h.entryAt?_eq (List.mem_append_left _ (hcs c hc))]
  rfl

theorem fared_refl (h' : t'.Stores heap' rows [] others')
    (hcount : t'.bucketCount = t.bucketCount) :
    t.Fared t.entryAt? t' :=
  h.fared_of_rows h' hcount fun _ => (h.filterMap_entryAt? fun _ hc => h.mem_all hc).symm

theorem fared_missed (edit : T → Option T) : t.Fared (t.fateOf [] edit) t :=
  (h.fared_refl h rfl).congr fun _ _ => fateOf_of_notMem nofun

/-! ### Few entries -/

section

variable {i : Nat} {pre post : List (Cell T)} {c : Cell T} (hr : rows i = pre ++ c :: post)
include hr

/-- Only one cell is another one, or gone. -/
theorem put_fateOf (edit : T → Option T) :
    rows.put i (pre ++ ((edit c.entry).map fun entry => { c with entry }).toList ++ post) =
      fun j => (rows j).filterMap (judged (t.fateOf [c.ref] edit)) := by
  have hsame : ∀ cs : List (Cell T), (∀ d ∈ cs, c.ref ≠ d.ref) →
      cs.filterMap (fun d => if [c.ref].contains d.ref then
        (edit d.entry).map fun entry => { d with entry } else some d) = cs := by
    intro cs hcs
    refine (List.filterMap_congr fun d hd => ?_).trans List.filterMap_some
    rw [if_neg (by simpa using (hcs d hd).symm)]
  have hc : c ∈ rows i := by simp [hr]
  funext j
  rw [h.filterMap_fateOf]
  by_cases hj : j = i
  · subst hj
    have hnew := h.ref_notMem hr
    simp only [List.append_nil, List.map_append, List.mem_append, List.mem_map, not_or,
      not_exists, not_and] at hnew
    rw [Rows.put_self, hr, List.filterMap_append, List.filterMap_cons, if_pos (by simp),
      hsame pre fun d hd => Ne.symm (hnew.1 d hd), hsame post fun d hd => Ne.symm (hnew.2 d hd)]
    cases edit c.entry <;> simp
  · have hi := h.lt_of_mem hc
    rw [rows.put_of_ne hj, hsame _ fun d hd => h.ref_ne hj (List.mem_append_left [] hc) hi hd]

theorem fared_edited {edit : T → Option T} {entry : T} (hedit : edit c.entry = some entry)
    (h' : t'.Stores heap' (rows.put i (pre ++ { c with entry } :: post)) [] others')
    (hcount : t'.bucketCount = t.bucketCount) : t.Fared (t.fateOf [c.ref] edit) t' := by
  refine h.fared_of_rows h' hcount fun j => ?_
  have hput := h.put_fateOf hr edit
  rw [hedit, Option.map_some, Option.toList_some, List.append_assoc] at hput
  exact congrFun hput j

theorem fared_removed
    (h' : t'.Stores heap' (rows.put i (pre ++ post)) [] others')
    (hcount : t'.bucketCount = t.bucketCount) :
    t.Fared (t.fateOf [c.ref] fun _ => none) t' := by
  refine h.fared_of_rows h' hcount fun j => ?_
  have hput := h.put_fateOf hr fun _ => none
  rw [Option.map_none, Option.toList_none, List.append_nil] at hput
  exact congrFun hput j

end

/-- All that match in their chain go. -/
theorem fared_eraseAll (hash : UInt64) (test : T → Bool) :
    t.Fared (t.fateOf ((t.chain (t.bucketOf hash)).filter (t.matchesAt hash test)) fun _ => none)
      (t.eraseAll hash test heap).2.1 := by
  obtain ⟨t', heap', hrun, h', hcount⟩ := h.eraseAll hash test
  rw [hrun]
  refine h.fared_of_rows h' hcount fun j => ?_
  have hmem : ∀ d ∈ rows j,
      ((t.chain (t.bucketOf hash)).filter (t.matchesAt hash test)).contains d.ref = true ↔
        j = t.bucketOf hash ∧ d.isMatch hash test := by
    intro d hd
    rw [List.contains_iff_mem, List.mem_filter,
      h.matchesAt_eq hash test (h.mem_cells hd), h.chain_eq, List.mem_map]
    refine and_congr_left fun _ => ⟨?_, ?_⟩
    · rintro ⟨e, he, heq⟩
      by_contra hj
      exact h.ref_ne (Ne.symm hj) (List.mem_append_left [] hd) (h.lt_of_mem hd) he heq.symm
    · rintro rfl
      exact ⟨d, hd, rfl⟩
  rw [h.filterMap_fateOf]
  by_cases hj : j = t.bucketOf hash
  · subst hj
    rw [Rows.put_self, ← List.filterMap_eq_filter]
    refine List.filterMap_congr fun d hd => ?_
    cases hmatch : d.isMatch hash test <;>
      simp only [hmem d hd, hmatch, Option.guard, Bool.not_true, Bool.not_false, if_true,
        if_false, and_true, and_false, Bool.false_eq_true, Option.map_none]
  · rw [rows.put_of_ne hj]
    refine List.filterMap_some.symm.trans (List.filterMap_congr fun d hd => ?_)
    rw [if_neg fun hd' => hj ((hmem d hd).mp hd').1]

/-- After entries were let be, edits of others let them be again. -/
theorem fared_others (h' : t.Fared t.entryAt? t') {qs : List Ref} (hqs : ∀ q ∈ t.refs, q ∉ qs)
    {edit : T → Option T} (h'' : t'.Fared (t'.fateOf qs edit) t'') : t.Fared t.entryAt? t'' := by
  refine (h'.trans (fun _ hq => h.isSome_entryAt? hq) h'').congr fun q hq => ?_
  have hsome := h.isSome_entryAt? hq
  obtain ⟨entry, hentry⟩ := Option.isSome_iff_exists.mp hsome
  rw [fateOf_of_notMem (hqs q hq), hentry, h'.entryAt? hq hsome hentry]

end Stores

/-! ### All entries -/

omit [Allocator A] in
theorem mem_refs_iff {q : Ref} : q ∈ t.refs ↔ ∃ i < t.bucketCount, q ∈ t.chain i := by
  simp [refs]

omit [Allocator A] in
theorem Filtered.fared {σ : Type} {keep : σ → T → Bool × T × σ} {state : σ}
    {out : σ × Table s T A × Heap A} (h : t.Filtered heap keep state fate out) :
    t.Fared fate out.2.1 where
  gone q hq hnone hq' := by
    obtain ⟨i, -, hi⟩ := mem_refs_iff.mp hq'
    rw [h.chain, List.mem_filter, hnone] at hi
    cases hi.2
  stays q hq entry hentry := by
    obtain ⟨i, hi, hqi⟩ := mem_refs_iff.mp hq
    refine ⟨mem_refs_iff.mpr ⟨i, h.plan.bucketCount.symm ▸ hi, ?_⟩, h.contentAt q hq entry hentry⟩
    rw [h.chain, List.mem_filter, hentry]
    exact ⟨hqi, rfl⟩

theorem Stores.fared_emptied (h : t'.Stores heap' (fun _ => []) [] others') :
    t.Fared (fun _ => none) t' where
  gone q _ _ hq := by
    rw [h.refs_eq, Rows.all_nil] at hq
    cases hq
  stays _ _ _ := nofun

omit [Allocator A] in
/-- Cells that keep their places. -/
theorem filterMap_judged_of_place {cs cs' : List (Cell T)}
    (hplace : cs'.map Cell.place = cs.map Cell.place)
    (hfate : (cs.map Cell.ref).map fate = (cs'.map Cell.entry).map some) :
    cs.filterMap (judged fate) = cs' := by
  induction cs generalizing cs' with
  | nil => exact (List.map_eq_nil_iff.mp hplace).symm
  | cons c cs ih =>
    obtain ⟨c', cs', rfl, hc, hcs⟩ := List.map_eq_cons_iff.mp hplace
    obtain ⟨hentry, hrest⟩ := List.cons.inj hfate
    obtain ⟨q, entry, hash⟩ := c
    obtain ⟨q', entry', hash'⟩ := c'
    cases hc
    rw [List.filterMap_cons, judged, hentry, ih hcs hrest]
    rfl

theorem Stores.fared_changed (h : t.Stores heap rows [] others)
    (h' : t'.Stores heap' rows' [] others') (hcount : t'.bucketCount = t.bucketCount)
    (hplace : (rows'.all t.bucketCount).map Cell.place = (rows.all t.bucketCount).map Cell.place) :
    t.Fared (t.fatesAlong (((rows'.all t.bucketCount).map Cell.entry).map some)) t' := by
  have hlength := congrArg List.length hplace
  simp only [List.length_map] at hlength
  have hfates :
      t.refs.map (t.fatesAlong (((rows'.all t.bucketCount).map Cell.entry).map some)) = _ :=
    h.map_fatesAlong (by simpa [h.toList_eq] using hlength)
  rw [h.refs_eq] at hfates
  refine h.fared h' [] (.of_eq ?_) nofun
  rw [hcount, List.nil_append, filterMap_judged_of_place hplace hfates]

/-! ### A new entry -/

/-- Whatever rows they are in now, the entries that were there have not changed, and a new one is in
a slot that held none. -/
theorem Inserted.fared {hash : UInt64} {hasher : Ref → T → UInt64} {entry : T}
    {add : Ref → List (Cell T) → List (Cell T)}
    {out : Except MemoryError Ref × Table s T A × Heap A}
    (h : t.Stores heap rows [] others) (hi : Inserted t heap rows others hash hasher add out)
    (hadd : ∀ q cs, (add q cs).Perm (s.cell q hash entry :: cs)) :
    t.Fared t.entryAt? out.2.1 ∧ ∀ q, out.1 = .ok q → q ∉ t.refs := by
  have hold : (rows.all t.bucketCount).filterMap (judged t.entryAt?) = rows.all t.bucketCount :=
    h.filterMap_entryAt? fun _ hc => hc
  cases hi with
  | @done rows' q t' heap' regrouped stores =>
    have hrow : (add q (rows' (t'.bucketOf hash)) ++ []).Perm
        (rows' (t'.bucketOf hash) ++ [s.cell q hash entry]) := by
      rw [List.append_nil]
      exact (hadd q _).trans (List.perm_append_singleton _ _).symm
    have hput := rows'.all_put_perm (stores.bucketOf_lt hash) hrow
    rw [List.append_nil] at hput
    have hperm := hput.trans ((List.perm_append_singleton _ _).trans
      ((regrouped.perm stores.bucketCount_pos).cons _))
    have hnew : q ∉ t.refs := by
      have hn := (hperm.map Cell.ref).nodup (by simpa using stores.nodup)
      rw [h.refs_eq]
      exact (List.nodup_cons.mp hn).1
    refine ⟨h.fared stores [s.cell q hash entry] (hold.symm ▸ hperm) ?_, ?_⟩
    · rintro _ (_ | ⟨_, ⟨⟩⟩)
      exact hnew
    · rintro _ ⟨⟩
      exact hnew
  | @denied rows' e t' heap' regrouped stores =>
    refine ⟨h.fared stores [] ?_ nofun, fun _ => nofun⟩
    rw [hold]
    exact regrouped.perm stores.bucketCount_pos

end

end Table

end ArenaHash
