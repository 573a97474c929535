import ArenaHash.Proofs.Container.Placement

/-!
# Containers as lists

A container whose entries are where their keys hash to is the list of its entries in walking order:
`Call.onList` says what each common call answers and does in terms of this list, without buckets,
slots, hashes or memory.
-/

namespace ArenaHash

section

variable {α K V : Type}

/-- Changes the first element that passes the test. -/
def changeFirst (p : α → Bool) (g : α → α) : List α → List α
  | [] => []
  | x :: l => if p x then g x :: l else x :: changeFirst p g l

theorem changeFirst_of_none {p : α → Bool} {g : α → α} :
    ∀ {l : List α}, (∀ x ∈ l, !p x) → changeFirst p g l = l
  | [], _ => rfl
  | x :: l, h => by
    have hx : p x = false := by simpa using h x List.mem_cons_self
    rw [changeFirst, hx, changeFirst_of_none fun y hy => h y (List.mem_cons_of_mem x hy)]
    rfl

theorem changeFirst_of_first {p : α → Bool} {g : α → α} {x : α} {right : List α} (hx : p x) :
    ∀ {left : List α}, (∀ y ∈ left, !p y) →
      changeFirst p g (left ++ x :: right) = left ++ g x :: right
  | [], _ => by simp [changeFirst, hx]
  | y :: left, h => by
    have hy : p y = false := by simpa using h y List.mem_cons_self
    rw [List.cons_append, changeFirst, hy,
      changeFirst_of_first hx fun z hz => h z (List.mem_cons_of_mem y hz)]
    rfl

/-- Keeps the entries that `keep` accepts, with the values it leaves, front to back. -/
def keepList {σ : Type} (keep : σ → K → V → Bool × V × σ) : σ → List (K × V) → σ × List (K × V)
  | state, [] => (state, [])
  | state, (k, v) :: l =>
    let (kept, v, state) := keep state k v
    let (state, rest) := keepList keep state l
    (state, if kept then (k, v) :: rest else rest)

theorem keepList_retain (keep : K → V → Bool × V) (l : List (K × V)) :
    (keepList (fun _ k v => ((keep k v).1, (keep k v).2, ())) () l).2 =
      l.filterMap fun e => if (keep e.1 e.2).1 then some (e.1, (keep e.1 e.2).2) else none := by
  induction l with
  | nil => rfl
  | cons e l ih =>
    obtain ⟨k, v⟩ := e
    by_cases hk : (keep k v).1 <;> simp [keepList, hk, ih]

end

namespace Keyed

/-- Inserting many goes through the first items, and through all of them unless it fails. `P` may
be any property of the container that single insertions keep track of. -/
theorem insertMany_track {ι C A ρ : Type} {insert : Insertion ι C A} {P : C → Heap A → ρ → Prop}
    {add : ρ → ι → ρ}
    (hstep : ∀ {c heap r} (x : ι), P c heap r → ∀ {result c' heap'},
      insert c x heap = (result, c', heap') →
        result = .ok () ∧ P c' heap' (add r x) ∨ (∃ e, result = .error e) ∧ P c' heap' r)
    (items : List ι) {c : C} {heap : Heap A} {r : ρ} (h : P c heap r) :
    ∃ done rest, items = done ++ rest ∧
      P (insertMany insert c items heap).2.1 (insertMany insert c items heap).2.2
        (done.foldl add r) ∧
      ((insertMany insert c items heap).1 = .ok () → rest = []) := by
  induction items generalizing c heap r with
  | nil => exact ⟨[], [], rfl, h, fun _ => rfl⟩
  | cons x items ih =>
    unfold insertMany
    rcases hi : insert c x heap with ⟨result, c', heap'⟩
    rcases hstep x h hi with ⟨rfl, h'⟩ | ⟨⟨e, rfl⟩, h'⟩
    · obtain ⟨done, rest, rfl, hP, hrest⟩ := ih h'
      exact ⟨x :: done, rest, rfl, hP, hrest⟩
    · exact ⟨[], x :: items, rfl, h', nofun⟩

/-- A list has no entry with the key, or a first one. -/
theorem hasKey_cases {K V : Type} [BEq K] (k : K) (l : List (K × V)) :
    (∀ e ∈ l, !hasKey k e) ∨ ∃ left e right, l = left ++ e :: right ∧ hasKey k e ∧
      ∀ d ∈ left, !hasKey k d := by
  cases hf : l.find? (hasKey k) with
  | none => exact .inl fun e he => by simpa using List.find?_eq_none.mp hf e he
  | some e =>
    obtain ⟨hk, left, right, heq, hleft⟩ := List.find?_eq_some_iff_append.mp hf
    exact .inr ⟨left, e, right, heq, hk, hleft⟩

/-- What a call does to the list of entries. -/
def Call.onList {K V ρ : Type} [BEq K] : Call K V ρ → List (K × V) → ρ × List (K × V)
  | .get k, l => ((l.find? (hasKey k)).map Prod.snd, l)
  | .getEntry k, l => (l.find? (hasKey k), l)
  | .contains k, l => (l.any (hasKey k), l)
  | .modify k f, l =>
    ((l.find? (hasKey k)).map Prod.snd, changeFirst (hasKey k) (fun e => (e.1, f e.2)) l)
  | .erase k, l => (l.find? (hasKey k), l.eraseP (hasKey k))
  | .filter keep state, l => keepList keep state l
  | .change changes, l => changeList changes l
  | .clear, _ => ((), [])
  | .renew, _ => ((), [])
  | .abandon, _ => ((), [])
  | .setMaxLoad _, l => ((), l)

variable {s : Table.Shape} {K V A S : Type} {f : S → K → UInt64} {c : Keyed s K V A S}
  {rows : Rows (K × V)}

section Filter

variable {σ : Type} (keep : σ → K → V → Bool × V × σ)

theorem keepCells_entries (state : σ) (cs : List (Cell (K × V))) :
    ((Table.keepCells (keepEntry keep) state cs).1,
        (Table.keepCells (keepEntry keep) state cs).2.map Cell.entry) =
      keepList keep state (cs.map Cell.entry) := by
  induction cs generalizing state with
  | nil => rfl
  | cons d cs ih =>
    have hrest := Prod.mk.inj (ih (keep state d.entry.1 d.entry.2).2.2)
    simp only [Table.keepCells, keepEntry, List.map_cons, keepList, ← hrest.1, ← hrest.2]
    by_cases hk : (keep state d.entry.1 d.entry.2).1 <;> simp [hk]

/-- A filter takes cells out and changes the values of others. -/
theorem keepCells_tags (state : σ) (cs : List (Cell (K × V))) :
    ((Table.keepCells (keepEntry keep) state cs).2.map Cell.tag).Sublist (cs.map Cell.tag) := by
  induction cs generalizing state with
  | nil => exact List.Sublist.refl _
  | cons d cs ih =>
    have hrest := ih (keep state d.entry.1 d.entry.2).2.2
    simp only [Table.keepCells, keepEntry, List.map_cons]
    by_cases hk : (keep state d.entry.1 d.entry.2).1
    · simp only [hk, if_true, List.map_cons]
      exact hrest.cons_cons d.tag
    · simp only [hk, if_false, Bool.false_eq_true]
      exact hrest.cons d.tag

end Filter

variable [BEq K] [Allocator A] {heap : Heap A} {others : List (Loan A)}

namespace Placed

variable (hf : Hashing.Faithful f) (h : c.Placed f heap rows others) (k : K)
include hf h

theorem getPair?_eq : c.getPair? (.ofFun f) k = c.toList.find? (hasKey k) := by
  unfold getPair?
  rcases h.hit_or_miss hf k with ⟨hmiss, -, hl⟩ | ⟨pre, cell, post, hit⟩
  · rw [hl, List.find?_eq_none.mpr fun e he => by simpa using hmiss e he]
    rfl
  · rw [hit.locate?, hit.find?_toList h]
    rfl

theorem contains_eq : c.contains (.ofFun f) k = c.toList.any (hasKey k) := by
  unfold contains
  rcases h.hit_or_miss hf k with ⟨hmiss, hfind, -⟩ | ⟨pre, cell, post, hit⟩
  · rw [hfind, List.any_eq_false.mpr fun e he => by simpa using hmiss e he]
    rfl
  · rw [hit.find?, hit.toList_eq h]
    simp [hit.hasKey]

end Placed

/-! ## Effects -/

/-- `c` stores `rows` and becomes `c'`, which has the entries `l`: values changed, cells went. -/
structure Becomes (f : S → K → UInt64) (c : Keyed s K V A S) (rows : Rows (K × V))
    (others : List (Loan A)) (l : List (K × V)) (c' : Keyed s K V A S) (heap' : Heap A)
    (rows' : Rows (K × V)) : Prop where
  builder : c'.builder = c.builder
  placed : c'.Placed f heap' rows' others
  toList : c'.toList = l
  tags : ∀ i, ((rows' i).map Cell.tag).Sublist ((rows i).map Cell.tag)

variable {c' : Keyed s K V A S} {heap' : Heap A} {k : K} {pre post : List (Cell (K × V))}
  {cell : Cell (K × V)}

omit [BEq K] in
theorem Placed.becomes {others' : List (Loan A)} {rows' : Rows (K × V)} {l : List (K × V)}
    (h : c.Placed f heap rows others) (hs : c'.table.Stores heap' rows' [] others')
    (hb : c'.builder = c.builder) (hcount : c'.table.bucketCount = c.table.bucketCount)
    (ht : ∀ i, ((rows' i).map Cell.tag).Sublist ((rows i).map Cell.tag))
    (hl : (rows'.all c.table.bucketCount).map Cell.entry = l) :
    c.Becomes f rows others' l c' heap' rows' := by
  have hp := h.of_tags c' hs hb hcount ht
  refine ⟨hb, hp, ?_, ht⟩
  rw [hp.toList_eq, hcount, hl]

omit [BEq K] in
theorem Placed.unchanged (h : c.Placed f heap rows others) :
    c.Becomes f rows others c.toList c heap rows :=
  ⟨rfl, h, rfl, fun _ => List.Sublist.refl _⟩

omit [BEq K] in
theorem Becomes.emptied (hb : c'.builder = c.builder)
    (hs : c'.table.Stores heap' (fun _ => []) [] others) :
    c.Becomes f rows others [] c' heap' (fun _ => []) := by
  have hp : c'.Placed f heap' (fun _ => []) others := ⟨hs, Rows.placed_nil⟩
  refine ⟨hb, hp, ?_, fun i => List.nil_sublist _⟩
  rw [hp.toList_eq]
  simp

theorem Hit.becomes_set (hit : c.Hit f rows k pre cell post) (hf : Hashing.Faithful f)
    (h : c.Placed f heap rows others) (v : V) :
    c.Becomes f rows others (left f c rows k pre ++ (cell.entry.1, v) :: right f c rows k post)
      { c with table := c.table.setEntry cell.ref (cell.entry.1, v) } heap
      (rows.put (c.bucketOf (.ofFun f) k)
        (pre ++ [{ cell with entry := (cell.entry.1, v) }] ++ post)) := by
  obtain ⟨hp, hl⟩ := hit.set h hf (cell.entry.1, v) hit.hasKey
  refine ⟨rfl, hp, hl, tags_put ?_⟩
  rw [hit.row]
  simp [Cell.tag]

theorem Hit.becomes_erase (hit : c.Hit f rows k pre cell post) (hf : Hashing.Faithful f)
    (h : c.Placed f heap rows others) :
    ∃ c' heap', c.erase (.ofFun f) k heap = (some cell.entry, c', heap') ∧
      c.Becomes f rows others (left f c rows k pre ++ right f c rows k post) c' heap'
        (rows.put (c.bucketOf (.ofFun f) k) (pre ++ post)) := by
  obtain ⟨c', heap', hrun, hb, hp, hl, -⟩ := hit.erase h hf
  refine ⟨c', heap', hrun, hb, hp, hl, tags_put ?_⟩
  rw [hit.row]
  exact (List.Sublist.append_left (List.sublist_cons_self _ _) _).map _

omit [BEq K] in
theorem Placed.becomes_filter (h : c.Placed f heap rows others) {σ : Type}
    (keep : σ → K → V → Bool × V × σ) (state : σ) :
    ∃ c' heap' rows', c.filter keep state heap = ((keepList keep state c.toList).1, c', heap') ∧
      c.Becomes f rows others (keepList keep state c.toList).2 c' heap' rows' := by
  obtain ⟨t', heap', hrun, hs, hcount, -⟩ := h.stores.filter (keepEntry keep) state
  have htags : ∀ i, (((Table.keepRows (keepEntry keep) state rows
      (List.range c.table.bucketCount)).2 i).map Cell.tag).Sublist ((rows i).map Cell.tag) := by
    intro i
    by_cases hi : i ∈ List.range c.table.bucketCount
    · obtain ⟨state', hrow⟩ :=
        Table.keepRows_row (keepEntry keep) state rows List.nodup_range hi
      rw [hrow]
      exact keepCells_tags keep state' (rows i)
    · rw [Table.keepRows_of_notMem _ _ hi]
  have hall := Prod.mk.inj (Table.keepRows_eq (keepEntry keep) state rows
    (List.nodup_range (n := c.table.bucketCount)))
  have hkeep := Prod.mk.inj (keepCells_entries keep state (rows.all c.table.bucketCount))
  refine ⟨{ c with table := t' }, heap', _, ?_, h.becomes hs rfl hcount htags ?_⟩
  · rw [filter_eq, hrun, h.toList_eq, ← hkeep.1, Rows.all, ← hall.1]
  · rw [h.toList_eq, ← hkeep.2, Rows.all, Rows.all, ← hall.2]

omit [BEq K] in
theorem Placed.becomes_change (h : c.Placed f heap rows others) (changes : List (V → V)) :
    ∃ c' rows', changeAlong changes c c.cursor = ((changeList changes c.toList).1, c') ∧
      c.Becomes f rows others (changeList changes c.toList).2 c' heap rows' := by
  obtain ⟨c', rows', after', hrun, hb, hcount, hs, hall, hafter, htag, -⟩ :=
    changeAlong_stores changes h.stores (List.nil_append _).symm h.stores.ahead
  have htags : ∀ i, ((rows' i).map Cell.tag).Sublist ((rows i).map Cell.tag) := fun i => by
    rw [htag]
  refine ⟨c', rows', by rw [h.toList_eq, cursor, hrun], h.becomes hs hb hcount htags ?_⟩
  rw [hall, List.nil_append, hafter, h.toList_eq]

theorem Placed.becomes_modify (hf : Hashing.Faithful f) (h : c.Placed f heap rows others) (k : K)
    (g : V → V) :
    ∃ c' rows', c.modify (.ofFun f) k g = ((c.toList.find? (hasKey k)).map Prod.snd, c') ∧
      c.Becomes f rows others (changeFirst (hasKey k) (fun e => (e.1, g e.2)) c.toList) c' heap
        rows' := by
  unfold modify
  rcases h.hit_or_miss hf k with ⟨hmiss, hfind, -⟩ | ⟨pre, cell, post, hit⟩
  · have hnone : c.toList.find? (hasKey k) = none :=
      List.find?_eq_none.mpr fun e he => by simpa using hmiss e he
    refine ⟨c, rows, by simp only [hfind, hnone, Option.map_none], ?_⟩
    rw [changeFirst_of_none hmiss]
    exact h.unchanged
  · have hc : cell ∈ rows (c.bucketOf (.ofFun f) k) := by simp [hit.row]
    rw [hit.find?_toList h, hit.toList_eq h, changeFirst_of_first hit.hasKey hit.left_unmatched]
    refine ⟨_, _, ?_, hit.becomes_set hf h (g cell.entry.2)⟩
    simp only [hit.find?, modifyAt_eq h.stores hc, Option.map_some]

theorem Placed.becomes_erase (hf : Hashing.Faithful f) (h : c.Placed f heap rows others) (k : K) :
    ∃ c' heap' rows', c.erase (.ofFun f) k heap = (c.toList.find? (hasKey k), c', heap') ∧
      c.Becomes f rows others (c.toList.eraseP (hasKey k)) c' heap' rows' := by
  rcases h.hit_or_miss hf k with ⟨hmiss, hfind, -⟩ | ⟨pre, cell, post, hit⟩
  · have hnone : ∀ e ∈ c.toList, ¬hasKey k e = true := fun e he => by simpa using hmiss e he
    refine ⟨c, heap, rows, by rw [h.erase_of_miss hfind, List.find?_eq_none.mpr hnone], ?_⟩
    rw [List.eraseP_of_forall_not hnone]
    exact h.unchanged
  · have hleft : ∀ e ∈ Hit.left f c rows k pre, ¬hasKey k e = true :=
      fun e he => by simpa using hit.left_unmatched e he
    obtain ⟨c', heap', hrun, hc⟩ := hit.becomes_erase hf h
    rw [hit.find?_toList h, hit.toList_eq h, List.eraseP_append_right _ hleft,
      List.eraseP_cons_of_pos hit.hasKey]
    exact ⟨c', heap', _, hrun, hc⟩

/-- As many cells of its row match as entries have the key. -/
theorem Placed.countP_row (hf : Hashing.Faithful f) (h : c.Placed f heap rows others) (k : K) :
    (rows (c.bucketOf (.ofFun f) k)).countP (c.isFor (.ofFun f) k) =
      (c.toList.filter (hasKey k)).length := by
  rw [h.filter_toList hf, List.filter_map, List.length_map, ← List.countP_eq_length_filter]
  exact List.countP_congr fun cell hc => by rw [h.isFor_eq hf hc]; rfl

theorem Placed.count_eq (hf : Hashing.Faithful f) (h : c.Placed f heap rows others) (k : K) :
    c.count (.ofFun f) k = (c.toList.filter (hasKey k)).length :=
  (h.stores.count_eq _ _).trans (h.countP_row hf k)

theorem Placed.becomes_eraseAll (hf : Hashing.Faithful f) (h : c.Placed f heap rows others)
    (k : K) :
    ∃ c' heap' rows', c.eraseAll (.ofFun f) k heap =
        ((c.toList.filter (hasKey k)).length, c', heap') ∧
      c.Becomes f rows others (c.toList.filter (!hasKey k ·)) c' heap' rows' := by
  obtain ⟨t', heap', hrun, hs, hcount⟩ := h.stores.eraseAll (f c.builder k) (hasKey k)
  have hi : c.bucketOf (.ofFun f) k < c.table.bucketCount := h.stores.bucketOf_lt _
  have hrow : (rows (c.bucketOf (.ofFun f) k)).filter (!c.isFor (.ofFun f) k ·) =
      (rows (c.bucketOf (.ofFun f) k)).filter (!hasKey k ·.entry) :=
    List.filter_congr fun cell hc => by rw [h.isFor_eq hf hc]
  have hs' : t'.Stores heap' (rows.put (c.bucketOf (.ofFun f) k)
      ((rows (c.bucketOf (.ofFun f) k)).filter (!hasKey k ·.entry))) [] others := by
    rw [← hrow]
    exact hs
  refine ⟨{ c with table := t' }, heap', _, ?_,
    h.becomes hs' rfl hcount (tags_put (List.filter_sublist.map _)) ?_⟩
  · rw [← h.countP_row hf k, eraseAll]
    exact congrArg (fun out => (out.1, { c with table := out.2.1 }, out.2.2)) hrun
  · have hall : (rows.all c.table.bucketCount).filter (!hasKey k ·.entry) =
        (rows.put (c.bucketOf (.ofFun f) k)
          ((rows (c.bucketOf (.ofFun f) k)).filter (!hasKey k ·.entry))).all
            c.table.bucketCount := by
      rw [rows.all_put hi, rows.all_eq hi, List.filter_append, List.filter_append,
        List.filter_eq_self.mpr (h.unmatched_before hf),
        List.filter_eq_self.mpr (h.unmatched_after hf)]
    rw [h.toList_eq, List.filter_map]
    exact congrArg (List.map Cell.entry) hall.symm

/-- The answer and the effect of a common call. -/
theorem Placed.perform (hf : Hashing.Faithful f) (h : c.Placed f heap rows others) {ρ : Type}
    (call : Call K V ρ) :
    ∃ c' heap' rows', Keyed.perform (.ofFun f) c heap call =
        ((call.onList c.toList).1, c', heap') ∧
      c.Becomes f rows (call.abandoned c ++ others) (call.onList c.toList).2 c' heap' rows' := by
  cases call with
  | get k =>
    refine ⟨c, heap, rows, ?_, h.unchanged⟩
    simp only [Keyed.perform, get?, h.getPair?_eq hf, Call.onList]
  | getEntry k =>
    refine ⟨c, heap, rows, ?_, h.unchanged⟩
    simp only [Keyed.perform, h.getPair?_eq hf, Call.onList]
  | contains k =>
    refine ⟨c, heap, rows, ?_, h.unchanged⟩
    simp only [Keyed.perform, h.contains_eq hf, Call.onList]
  | modify k g =>
    obtain ⟨c', rows', hrun, hc⟩ := h.becomes_modify hf k g
    exact ⟨c', heap, rows', by simp only [Keyed.perform, hrun, Call.onList], hc⟩
  | erase k => exact h.becomes_erase hf k
  | filter keep state => exact h.becomes_filter keep state
  | change changes =>
    obtain ⟨c', rows', hrun, hc⟩ := h.becomes_change changes
    exact ⟨c', heap, rows', by simp only [Keyed.perform, hrun, Call.onList], hc⟩
  | clear =>
    obtain ⟨t', heap', hrun, hs, -⟩ := h.stores.clear
    refine ⟨{ c with table := t' }, heap', _, ?_, .emptied rfl hs⟩
    simp only [Keyed.perform, clear, hrun, Call.onList]
  | renew => exact ⟨_, _, _, rfl, .emptied rfl h.stores.renew⟩
  | abandon => exact ⟨_, _, _, rfl, .emptied rfl h.stores.abandon⟩
  | setMaxLoad maxLoad =>
    have hcount : (c.setMaxLoad maxLoad).table.bucketCount = c.table.bucketCount :=
      c.table.bucketCount_setMaxLoad maxLoad
    exact ⟨_, _, _, rfl, h.becomes (h.stores.setMaxLoad maxLoad) rfl hcount
      (fun i => List.Sublist.refl _) h.toList_eq.symm⟩

/-! ## Other operations -/

omit [BEq K] in
/-- An owning iterator takes out the first entry of the first row ahead that has one. -/
theorem Placed.pop_cases (h : c.Placed f heap rows others) (position : Nat) :
    c.pop position heap = (none, max position c.table.bucketCount, c, heap) ∧
        (∀ j, position ≤ j → rows j = []) ∨
      ∃ i cell right c' later rows', c.pop position heap = (some cell.entry, i, c', later) ∧
        cell ∈ rows i ∧ position ≤ i ∧ (∀ j, position ≤ j → j < i → rows j = []) ∧
        c.toList = (rows.before i).map Cell.entry ++ cell.entry :: right ∧
        c.Becomes f rows others ((rows.before i).map Cell.entry ++ right) c' later rows' := by
  unfold pop
  rcases h.stores.pop position with
    ⟨hrun, hpast⟩ | ⟨i, cell, cs, t', later, hrun, hle, hbetween, hrow, hs, hcount, -⟩
  · exact .inl ⟨by rw [hrun], hpast⟩
  · have hc : cell ∈ rows i := by simp [hrow]
    have hi : i < c.table.bucketCount := h.stores.lt_of_mem hc
    refine .inr ⟨i, cell, (cs ++ rows.after i c.table.bucketCount).map Cell.entry,
      { c with table := t' }, later, rows.put i cs, by rw [hrun], hc, hle, hbetween, ?_,
      h.becomes hs rfl hcount (tags_put ?_) ?_⟩
    · rw [h.toList_eq, rows.all_eq hi, hrow]
      simp
    · rw [hrow]
      exact (List.sublist_cons_self _ _).map _
    · rw [rows.all_put hi cs, List.append_assoc, List.map_append]

theorem Placed.becomes_pop [ReflBEq K] (hf : Hashing.Faithful f) (h : c.Placed f heap rows others)
    {position i : Nat} {e : K × V} (hr : c.pop position heap = (some e, i, c', heap')) :
    ∃ left right rows', c.toList = left ++ e :: right ∧ (∀ d ∈ left, !hasKey e.1 d) ∧
      c.Becomes f rows others (left ++ right) c' heap' rows' := by
  rcases h.pop_cases position with
    ⟨hrun, -⟩ | ⟨i', cell, right, d, later, rows', hrun, hc, -, -, hlist, hbecomes⟩
  · cases hrun.symm.trans hr
  · cases hrun.symm.trans hr
    have hbucket : c.bucketOf (.ofFun f) cell.entry.1 = i := h.bucketOf_eq hf hc BEq.rfl
    refine ⟨_, right, rows', hlist, ?_, hbecomes⟩
    rw [← hbucket]
    simpa using h.unmatched_before hf (k := cell.entry.1)

omit [BEq K] in
theorem Placed.becomes_setDelegate (h : c.Placed f heap rows others) (delegate : A) :
    c.Becomes f rows others c.toList (c.setDelegate delegate).2 heap rows :=
  h.becomes (h.stores.setDelegate delegate) rfl (c.table.bucketCount_setDelegate delegate)
    (fun _ => List.Sublist.refl _) h.toList_eq.symm

omit [BEq K] in
/-- A copy has the same list. -/
theorem Placed.becomes_copy (h : c.Placed f heap rows others)
    (hr : c.copy heap = (.ok c', heap')) :
    ∃ rows', c.Becomes f rows (c.table.loans c.table.refs ++ others) c.toList c' heap' rows' := by
  obtain ⟨t', ht, rfl⟩ := table_copy_of_ok hr
  obtain ⟨rows', hs, -, hcount, hcontent, -⟩ := h.stores.copy_ok ht
  have htag : ∀ cs : List (Cell (K × V)),
      cs.map Cell.tag = (cs.map Cell.content).map fun x => (x.1.1, x.2) := fun cs => by
    rw [List.map_map]
    rfl
  have htags : ∀ i, ((rows' i).map Cell.tag).Sublist ((rows i).map Cell.tag) := fun i => by
    rw [htag, htag, hcontent]
  have hentry : ∀ cs : List (Cell (K × V)),
      cs.map Cell.entry = (cs.map Cell.content).map Prod.fst := fun cs => by
    rw [List.map_map]
    rfl
  refine ⟨rows', h.becomes hs rfl hcount htags ?_⟩
  rw [h.toList_eq, Rows.all, Rows.all, List.map_flatMap, List.map_flatMap]
  apply List.flatMap_congr
  intro i _
  rw [hentry, hentry, hcontent]

end Keyed

end ArenaHash
