import ArenaHash.Proofs.Container.Views

/-!
# The order of a walk

An iterator yields the entries bucket by bucket. An insertion or a removal edits this order in one
place: a new key comes first among the entries of its bucket, what is inserted under a present key
takes the place of the first entry with the key or comes right after it, and a removal takes out
the first entry with the key. If the bucket array grows, the order that is edited is that of the
larger array, where each bucket lists its entries as the walk came to them before (`orderAt`).
-/

namespace ArenaHash

open Keyed (hasKey)

/-- One edit of a list that goes bucket by bucket: the first entry `d` with the key of `e` makes
way for `put d`, or else `e` becomes the first entry of its bucket. -/
inductive Edited {K V : Type} [BEq K] (bucket : K → Nat) (e : K × V)
    (put : K × V → List (K × V)) : List (K × V) → List (K × V) → Prop where
  | present {left right : List (K × V)} {d : K × V} (first : ∀ x ∈ left, !hasKey e.1 x)
    (key : hasKey e.1 d) : Edited bucket e put (left ++ d :: right) (left ++ put d ++ right)
  | absent {before segment after : List (K × V)}
    (none : ∀ x ∈ before ++ segment ++ after, !hasKey e.1 x)
    (before_lt : ∀ x ∈ before, bucket x.1 < bucket e.1)
    (segment_eq : ∀ x ∈ segment, bucket x.1 = bucket e.1)
    (lt_after : ∀ x ∈ after, bucket e.1 < bucket x.1) :
    Edited bucket e put (before ++ segment ++ after) (before ++ e :: segment ++ after)

namespace Edited

variable {K V : Type} [BEq K] {bucket : K → Nat} {e : K × V} {put put' : K × V → List (K × V)}

/-- What would be done about a present key does not matter to an absent one. -/
theorem of_none {l l' : List (K × V)} (h : Edited bucket e put l l')
    (hnone : ∀ x ∈ l, !hasKey e.1 x) : Edited bucket e put' l l' := by
  cases h with
  | @present left right d first key =>
    have hd := hnone d (by simp)
    simp [key] at hd
  | absent none before_lt segment_eq lt_after => exact .absent none before_lt segment_eq lt_after

/-- Only in its own bucket a key can have entries, so the first one of these is the first of all. -/
theorem beside (hbucket : ∀ x : K × V, hasKey e.1 x → bucket x.1 = bucket e.1)
    {before segment after : List (K × V)} (hbefore : ∀ x ∈ before, bucket x.1 < bucket e.1)
    (hsegment : ∀ x ∈ segment, bucket x.1 = bucket e.1)
    (hafter : ∀ x ∈ after, bucket e.1 < bucket x.1) :
    Edited bucket e (fun d => [d, e]) (before ++ segment ++ after)
      (before ++ besideFirst (hasKey e.1) e segment ++ after) := by
  have hother : ∀ x : K × V, bucket x.1 ≠ bucket e.1 → !hasKey e.1 x := fun x hx => by
    rw [Bool.not_eq_true_eq_eq_false, ← Bool.not_eq_true]
    exact fun hk => hx (hbucket x hk)
  have hb : ∀ x ∈ before, !hasKey e.1 x := fun x hx => hother x (Nat.ne_of_lt (hbefore x hx))
  have ha : ∀ x ∈ after, !hasKey e.1 x := fun x hx => hother x (Nat.ne_of_gt (hafter x hx))
  rcases besideFirst_cases (hasKey e.1) e segment with
    ⟨hnone, heq⟩ | ⟨pre, d, post, rfl, hpre, hd, heq⟩
  · rw [heq]
    refine .absent ?_ hbefore hsegment hafter
    simp only [List.mem_append]
    rintro x ((hx | hx) | hx)
    · exact hb x hx
    · exact hnone x hx
    · exact ha x hx
  · have hleft : ∀ x ∈ before ++ pre, !hasKey e.1 x :=
      fun x hx => (List.mem_append.mp hx).elim (hb x) (hpre x)
    have hedited : Edited bucket e (fun d => [d, e]) (before ++ pre ++ d :: (post ++ after))
        (before ++ pre ++ [d, e] ++ (post ++ after)) := .present hleft hd
    rw [heq]
    simpa using hedited

end Edited

namespace Keyed

variable {s : Table.Shape} {K V A S : Type} [Allocator A] {f : S → K → UInt64}
  {c c' : Keyed s K V A S} {heap heap' : Heap A} {rows rows' : Rows (K × V)}
  {others : List (Loan A)}

/-- The entries as `count` buckets would list them, each of its own in the order of the walk. -/
def orderAt (f : S → K → UInt64) (c : Keyed s K V A S) (count : Nat) : List (K × V) :=
  (List.range count).flatMap fun i => c.walked.filter fun e =>
    (f c.builder e.1).toNat % count == i

theorem Placed.orderAt_regrouped (h : c.Placed f heap rows others) {count : Nat}
    (hre : Rows.Regrouped (c.hasher (.ofFun f)) rows rows' c.table.bucketCount count) :
    c.orderAt f count = (rows'.all count).map Cell.entry := by
  rw [orderAt, walked_eq h.stores, Rows.all, List.map_flatMap]
  exact List.flatMap_congr fun i _ => (h.row_regrouped hre i).symm

/-- Without growth nothing is listed anew. -/
theorem Placed.orderAt_bucketCount (h : c.Placed f heap rows others) :
    c.orderAt f c.table.bucketCount = c.walked := by
  rw [h.orderAt_regrouped (.inl ⟨rfl, rfl⟩), walked_eq h.stores, h.toList_eq]

theorem Placed.mem_orderAt (h : c.Placed f heap rows others) {count : Nat} {e : K × V}
    (he : e ∈ c.orderAt f count) : e ∈ c.toList := by
  obtain ⟨i, -, he⟩ := List.mem_flatMap.mp he
  rw [← walked_eq h.stores]
  exact List.mem_of_mem_filter he

variable [BEq K]

/-- What an insertion of `e` does to the order of the walk. -/
structure Reorders {ρ : Type} (f : S → K → UInt64) (c : Keyed s K V A S) (e : K × V)
    (put : K × V → List (K × V)) (out : Except MemoryError ρ × Keyed s K V A S × Heap A) :
    Prop where
  edited : ∀ answer, out.1 = .ok answer →
    Edited (out.2.1.bucketOf (.ofFun f)) e put (c.orderAt f out.2.1.table.bucketCount)
      out.2.1.walked
  failed : ∀ error, out.1 = .error error →
    out.2.1.walked = c.orderAt f out.2.1.table.bucketCount

/-- What a removal under `k` comes to. -/
inductive Removed (c : Keyed s K V A S) (heap : Heap A) (k : K) :
    Option (K × V) × Keyed s K V A S × Heap A → Prop where
  | found {left right : List (K × V)} {d : K × V} {c' : Keyed s K V A S} {heap' : Heap A}
    (before : c.walked = left ++ d :: right) (first : ∀ x ∈ left, !hasKey k x)
    (key : hasKey k d) (after : c'.walked = left ++ right)
    (bucketCount : c'.table.bucketCount = c.table.bucketCount) :
    Removed c heap k (some d, c', heap')
  | missed (absent : ∀ x ∈ c.walked, !hasKey k x) : Removed c heap k (none, c, heap)

omit [Allocator A] in
theorem Reorders.map {ρ τ : Type} {e : K × V} {put : K × V → List (K × V)}
    {out : Except MemoryError ρ × Keyed s K V A S × Heap A} (h : Reorders f c e put out)
    (g : ρ → τ) : Reorders f c e put (out.1.map g, out.2) := by
  obtain ⟨_ | answer, c', heap'⟩ := out
  · exact ⟨nofun, fun _ _ => h.failed _ rfl⟩
  · exact ⟨fun _ _ => h.edited _ rfl, nofun⟩

/-! ## Insertions -/

section

variable {t' : Table s (K × V) A} {e : K × V} {put : K × V → List (K × V)}
  (h : c.Placed f heap rows others) (hf : Hashing.Faithful f)
  (hre : Rows.Regrouped (c.hasher (.ofFun f)) rows rows' c.table.bucketCount t'.bucketCount)
include h hre

omit [BEq K] in
theorem Placed.walked_regrouped (hs : t'.Stores heap' rows' [] others) :
    walked { c with table := t' } = c.orderAt f t'.bucketCount := by
  rw [h.orderAt_regrouped hre, walked_eq (c := { c with table := t' }) hs]
  exact hs.toList_eq

include hf

/-- A new entry in the row of its key, beside the first entry with the key. -/
theorem Placed.edited {cs : List (Cell (K × V))}
    (hs : t'.Stores heap' (rows'.put (t'.bucketOf (f c.builder e.1)) cs) [] others)
    (hcs : cs.map Cell.entry = besideFirst (hasKey e.1) e
      ((rows' (t'.bucketOf (f c.builder e.1))).map Cell.entry)) :
    Edited (bucketOf (.ofFun f) { c with table := t' }) e (fun d => [d, e])
      (c.orderAt f t'.bucketCount) (walked { c with table := t' }) := by
  have hi : t'.bucketOf (f c.builder e.1) < t'.bucketCount := hs.bucketOf_lt _
  have hplaced := h.placed.regrouped (fun _ _ => rfl) hre
  have hbucket : ∀ j, ∀ d ∈ rows' j, t'.bucketOf (f c.builder d.entry.1) = j :=
    fun j d hd => (hplaced j d hd).2
  have hwalked : walked { c with table := t' } =
      ((rows'.put (t'.bucketOf (f c.builder e.1)) cs).all t'.bucketCount).map Cell.entry := by
    rw [walked_eq (c := { c with table := t' }) hs]
    exact hs.toList_eq
  rw [hwalked, h.orderAt_regrouped hre, rows'.all_put hi, rows'.all_eq hi]
  simp only [List.map_append, hcs]
  have hkey : ∀ x : K × V, hasKey e.1 x →
      t'.bucketOf (f c.builder x.1) = t'.bucketOf (f c.builder e.1) :=
    fun x hx => congrArg t'.bucketOf (hf _ _ _ hx)
  refine .beside hkey ?_ ?_ ?_ <;> rw [List.forall_mem_map] <;> intro d hd
  · obtain ⟨j, hj, hd⟩ := List.mem_flatMap.mp hd
    exact (hbucket j d hd).trans_lt (List.mem_range.mp hj)
  · exact hbucket _ d hd
  · obtain ⟨j, hj, hd⟩ := List.mem_flatMap.mp hd
    exact (List.mem_range'_1.mp hj).1.trans_eq (hbucket j d hd).symm

end

section

variable {e : K × V} {put : K × V → List (K × V)} (hf : Hashing.Faithful f)
  (h : c.Placed f heap rows others)
include hf h

/-- A new entry in front of the row of its key, if the key is absent. -/
theorem Placed.edited_front (hmiss : ∀ x ∈ c.toList, !hasKey e.1 x) {t' : Table s (K × V) A}
    {q : Ref}
    (hre : Rows.Regrouped (c.hasher (.ofFun f)) rows rows' c.table.bucketCount t'.bucketCount)
    (hs : t'.Stores heap' (rows'.put (t'.bucketOf (f c.builder e.1))
      (s.cell q (f c.builder e.1) e :: rows' (t'.bucketOf (f c.builder e.1)))) [] others) :
    Edited (bucketOf (.ofFun f) { c with table := t' }) e put (c.orderAt f t'.bucketCount)
      (walked { c with table := t' }) := by
  refine (h.edited hf hre hs ?_).of_none fun x hx => hmiss x (h.mem_orderAt hx)
  rw [h.row_regrouped hre, besideFirst_of_none]
  · rw [List.map_cons, h.row_regrouped hre]
    rfl
  · rw [List.find?_eq_none]
    intro x hx
    simpa using hmiss x (List.mem_of_mem_filter hx)

variable (k : K) (v : V)

theorem Placed.reorders_add (hmiss : ∀ x ∈ c.toList, !hasKey k x) :
    Reorders f c (k, v) put (Map.add (.ofFun f) c k v heap) := by
  have hi := h.stores.insertFront (f c.builder k) (k, v) (c.hasher (.ofFun f))
  unfold Map.add
  rw [Hashing.key_ofFun]
  generalize c.table.insertFront (f c.builder k) (k, v) (c.hasher (.ofFun f)) heap = result at hi
  cases hi with
  | done regrouped stores =>
    exact ⟨fun _ _ => h.edited_front hf hmiss regrouped stores, nofun⟩
  | denied regrouped stores => exact ⟨nofun, fun _ _ => h.walked_regrouped regrouped stores⟩

theorem Placed.reorders_insertBeside :
    Reorders f c (k, v) (fun d => [d, (k, v)]) (Multimap.insert (.ofFun f) c k v heap) := by
  have hi := h.stores.insertBeside (f c.builder k) (k, v) (hasKey k) (c.hasher (.ofFun f))
  unfold Multimap.insert
  rw [Hashing.key_ofFun]
  generalize c.table.insertBeside (f c.builder k) (k, v) (hasKey k) (c.hasher (.ofFun f)) heap =
    result at hi
  cases hi with
  | done regrouped stores =>
    refine ⟨fun _ _ => h.edited hf regrouped stores ?_, nofun⟩
    have hplaced := h.placed.regrouped (fun _ _ => rfl) regrouped
    rw [besideFirst_congr fun d hd => hplaced.isMatch_eq hf hd]
    exact map_besideFirst Cell.entry _ _
  | denied regrouped stores => exact ⟨nofun, fun _ _ => h.walked_regrouped regrouped stores⟩

/-- The value of the new entry is changed where it was put. -/
theorem Placed.reorders_addAndChange (hmiss : ∀ x ∈ c.toList, !hasKey k x) (g : V → V) :
    Reorders f c (k, g v) put
      (match Map.add (.ofFun f) c k v heap with
      | (.ok q, m, later) => (.ok ((m.modifyAt q g).1, true), (m.modifyAt q g).2, later)
      | (.error e, m, later) => (.error e, m, later)) := by
  have hi := h.stores.insertFront (f c.builder k) (k, v) (c.hasher (.ofFun f))
  unfold Map.add
  rw [Hashing.key_ofFun]
  generalize c.table.insertFront (f c.builder k) (k, v) (c.hasher (.ofFun f)) heap = result at hi
  cases hi with
  | @done rows' q t' later regrouped stores =>
    have hmem : s.cell q (f c.builder k) (k, v) ∈ rows'.put (t'.bucketOf (f c.builder k))
        (s.cell q (f c.builder k) (k, v) :: rows' (t'.bucketOf (f c.builder k)))
        (t'.bucketOf (f c.builder k)) := by
      rw [Rows.put_self]
      exact List.mem_cons_self
    have hmod := modifyAt_eq (c := { c with table := t' }) stores hmem g
    have hq : (s.cell q (f c.builder k) (k, v)).ref = q := rfl
    rw [hq] at hmod
    simp only [hmod]
    have hre : Rows.Regrouped (c.hasher (.ofFun f)) rows rows' c.table.bucketCount
        (t'.setEntry q (k, g v)).bucketCount := regrouped
    exact ⟨fun _ _ => h.edited_front hf hmiss hre (stores.setEntry_front (k, g v)), nofun⟩
  | denied regrouped stores => exact ⟨nofun, fun _ _ => h.walked_regrouped regrouped stores⟩

end

section

variable {e : K × V} {pre post : List (Cell (K × V))} {cell : Cell (K × V)}
  (h : c.Placed f heap rows others) (hit : c.Hit f rows e.1 pre cell post)
include h hit

/-- Where an entry was found there is an entry afterwards, and nothing else has changed. -/
theorem Hit.reorders {ρ : Type} {g : K × V → K × V} {c' : Keyed s K V A S}
    (hwalked : c'.walked = left f c rows e.1 pre ++ g cell.entry :: right f c rows e.1 post)
    (hcount : c'.table.bucketCount = c.table.bucketCount) (answer : ρ) :
    Reorders f c e (fun d => [g d]) (.ok answer, c', heap') := by
  refine ⟨fun _ _ => ?_, nofun⟩
  have hwalk := walked_eq h.stores
  have hedited : Edited (c'.bucketOf (.ofFun f)) e (fun d => [g d])
      (left f c rows e.1 pre ++ cell.entry :: right f c rows e.1 post)
      (left f c rows e.1 pre ++ [g cell.entry] ++ right f c rows e.1 post) :=
    .present hit.left_unmatched hit.hasKey
  rw [List.append_assoc, List.singleton_append] at hedited
  rw [hcount, h.orderAt_bucketCount, hwalk, hit.toList_eq h, hwalked]
  exact hedited

/-- An entry that was found is overwritten. -/
theorem Hit.reorders_set {ρ : Type} (hf : Hashing.Faithful f) {g : K × V → K × V}
    (hg : (g cell.entry).1 == e.1) (answer : ρ) :
    Reorders f c e (fun d => [g d])
      (.ok answer, { c with table := c.table.setEntry cell.ref (g cell.entry) }, heap) := by
  obtain ⟨hp, hl⟩ := hit.set h hf (g cell.entry) hg
  exact hit.reorders h ((walked_eq hp.stores).trans hl) rfl answer

/-- An entry that was found stays. -/
theorem Hit.reorders_keep {ρ : Type} (answer : ρ) :
    Reorders f c e (fun d => [d]) (.ok answer, c, heap) :=
  hit.reorders (g := id) h ((walked_eq h.stores).trans (hit.toList_eq h)) rfl answer

end

section

variable (hf : Hashing.Faithful f) (h : c.Placed f heap rows others) (k : K) (v : V)
include hf h

theorem Placed.reorders_insert :
    Reorders f c (k, v) (fun d => [(d.1, v)]) (Map.insert (.ofFun f) c k v heap) := by
  unfold Map.insert
  rcases h.hit_or_miss hf k with ⟨hmiss, -, hl⟩ | ⟨pre, cell, post, hit⟩
  · simp only [hl]
    exact (h.reorders_add hf k v hmiss).map _
  · simp only [hit.locate?]
    exact Hit.reorders_set (e := (k, v)) (g := fun d => (d.1, v)) h hit hf hit.hasKey _

theorem Placed.reorders_insertIfNew :
    Reorders f c (k, v) (fun d => [d]) (Map.insertIfNew (.ofFun f) c k v heap) := by
  unfold Map.insertIfNew
  rcases h.hit_or_miss hf k with ⟨hmiss, hfind, -⟩ | ⟨pre, cell, post, hit⟩
  · simp only [hfind]
    exact (h.reorders_add hf k v hmiss).map _
  · simp only [hit.find?]
    exact Hit.reorders_keep (e := (k, v)) h hit _

theorem Placed.reorders_insertOrChange (g : V → V) :
    Reorders f c (k, g v) (fun d => [(d.1, g d.2)])
      (Map.perform (.ofFun f) c heap (.insertIfNew k v g)) := by
  unfold Map.perform Map.insertIfNew
  rcases h.hit_or_miss hf k with ⟨hmiss, hfind, -⟩ | ⟨pre, cell, post, hit⟩
  · have hadd : Reorders f c (k, g v) (fun d => [(d.1, g d.2)]) _ :=
      h.reorders_addAndChange hf k v hmiss g
    simp only [hfind]
    generalize Map.add (.ofFun f) c k v heap = result at hadd ⊢
    obtain ⟨_ | q, m, later⟩ := result <;> exact hadd
  · have hc : cell ∈ rows (c.bucketOf (.ofFun f) k) := by simp [hit.row]
    simp only [hit.find?, modifyAt_eq h.stores hc]
    exact Hit.reorders_set (e := (k, g v)) (g := fun d => (d.1, g d.2)) h hit hf hit.hasKey _

theorem Placed.reorders_replace [EquivBEq K] :
    Reorders f c (k, v) (fun _ => [(k, v)]) (Map.replace (.ofFun f) c k v heap) := by
  unfold Map.replace
  rcases h.hit_or_miss hf k with ⟨hmiss, -, hl⟩ | ⟨pre, cell, post, hit⟩
  · simp only [hl]
    exact (h.reorders_add hf k v hmiss).map _
  · simp only [hit.locate?]
    exact Hit.reorders_set (e := (k, v)) (g := fun _ => (k, v)) h hit hf BEq.rfl _

/-! ## Removals -/

omit v in
theorem Placed.removed : Removed c heap k (c.erase (.ofFun f) k heap) := by
  have hwalk := walked_eq h.stores
  rcases h.hit_or_miss hf k with ⟨hmiss, hfind, -⟩ | ⟨pre, cell, post, hit⟩
  · rw [h.erase_of_miss hfind]
    exact .missed (hwalk ▸ hmiss)
  · have hplan := (Table.Releases.erase c.table (f c.builder k) (hasKey k) heap).toSamePlan
    obtain ⟨c', heap', hrun, -, hp, hl, -⟩ := hit.erase h hf
    have htable : c'.table = (c.erase (.ofFun f) k heap).2.1.table := by rw [hrun]
    rw [hrun]
    exact .found (hwalk.trans (hit.toList_eq h)) hit.left_unmatched hit.hasKey
      ((walked_eq hp.stores).trans hl) (htable ▸ hplan.bucketCount)

omit v in
/-- Removing all of them leaves the others in order. -/
theorem Placed.walked_eraseAll :
    (c.eraseAll (.ofFun f) k heap).2.1.walked = c.walked.filter (!hasKey k ·) := by
  have hwalk := walked_eq h.stores
  obtain ⟨c', heap', rows', hrun, hc⟩ := h.becomes_eraseAll hf k
  rw [hrun, hwalk]
  exact (walked_eq hc.placed.stores).trans hc.toList

end

/-- Every insertion and every removal edits the order of the walk in one place. -/
theorem updates_edit_order [EquivBEq K] (hf : Hashing.Faithful f) :
    (∀ (c : Keyed s K V A S) (heap : Heap A), Reached f c heap →
      c.orderAt f c.table.bucketCount = c.walked ∧
      ∀ k v,
        Reorders f c (k, v) (fun d => [(d.1, v)]) (Map.insert (.ofFun f) c k v heap) ∧
        Reorders f c (k, v) (fun _ => [(k, v)]) (Map.replace (.ofFun f) c k v heap) ∧
        Reorders f c (k, v) (fun d => [d]) (Map.insertIfNew (.ofFun f) c k v heap) ∧
        (∀ g, Reorders f c (k, g v) (fun d => [(d.1, g d.2)])
          (Map.perform (.ofFun f) c heap (.insertIfNew k v g))) ∧
        Reorders f c (k, v) (fun d => [d, (k, v)]) (Multimap.insert (.ofFun f) c k v heap) ∧
        Removed c heap k (c.erase (.ofFun f) k heap) ∧
        (c.eraseAll (.ofFun f) k heap).2.1.walked = c.walked.filter (!hasKey k ·)) ∧
    ∀ (m : Keyed s K Unit A S) (heap : Heap A), Reached f m heap → ∀ k,
      Reorders f m (k, ()) (fun d => [d]) (KeySet.insert (.ofFun f) m k heap) ∧
      Reorders f m (k, ()) (fun _ => [(k, ())]) (KeySet.replace (.ofFun f) m k heap) ∧
      Reorders f m (k, ()) (fun d => [d, (k, ())]) (KeyBag.insert (.ofFun f) m k heap) := by
  refine ⟨fun c heap h => ?_, fun m heap h k => ?_⟩
  · obtain ⟨rows, others, hp⟩ := h.placed hf
    exact ⟨hp.orderAt_bucketCount, fun k v => ⟨hp.reorders_insert hf k v,
      hp.reorders_replace hf k v, hp.reorders_insertIfNew hf k v,
      hp.reorders_insertOrChange hf k v, hp.reorders_insertBeside hf k v, hp.removed hf k,
      hp.walked_eraseAll hf k⟩⟩
  · obtain ⟨rows, others, hp⟩ := h.placed hf
    exact ⟨(hp.reorders_insertIfNew hf k ()).map _, (hp.reorders_replace hf k ()).map _,
      hp.reorders_insertBeside hf k ()⟩

/-- The third entry asks for five buckets and comes right after the one with its key. -/
theorem grown_multimap_edits_order :
    let heap : Heap Lender := { serves := fun _ _ _ => true }
    let m : Multimap .lax Nat Char Lender Unit := .new () .plain
    let (_, m, heap) := Multimap.perform (.ofFun hashByParity) m heap (.insert 1 'a')
    let (_, m, heap) := Multimap.perform (.ofFun hashByParity) m heap (.insert 2 'b')
    let out := Multimap.insert (.ofFun hashByParity) m 1 'c' heap
    m.walked = [(2, 'b'), (1, 'a')] ∧ out.2.1.table.bucketCount = 5 ∧
      m.orderAt hashByParity 5 = [(2, 'b'), (1, 'a')] ∧
      out.2.1.walked = [(2, 'b'), (1, 'a'), (1, 'c')] ∧
      Reorders hashByParity m (1, 'c') (fun d => [d, (1, 'c')]) out := by
  have h : Reached (s := .lax) hashByParity _ _ :=
    ((Reached.new () Lender.plain (Heap.lends_nil fun _ _ _ => true)).step
      (.multimap (.insert 1 'a'))).step (.multimap (.insert 2 'b'))
  have hedits := (updates_edit_order faithful_hashByParity).1 _ _ h
  exact ⟨by rfl, by rfl, by rfl, by rfl, (hedits.2 1 'c').2.2.2.2.1⟩

end Keyed

end ArenaHash
