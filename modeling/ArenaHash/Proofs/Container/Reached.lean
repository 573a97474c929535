import ArenaHash.Proofs.Container.KeyBags

/-!
# What a container can come to

Under one hash function, a container takes these steps, whatever its overflow allocator serves and
refuses:

- a call of a map or a multimap is made on it, or a key is added as key sets add it;
- one entry is taken out, as an owning iterator does;
- it is given another overflow allocator;
- it is copied, and the run goes on with it or with the copy.

Calls on key sets and key bags are such steps, and insertions of many items are several. A call may
answer with an error; what it leaves is a state like any other. So is what a predicate leaves that
gives up while entries are filtered, as if it had kept all that follow. `Reached` are the states
that a new container comes to, while others borrow from the same heap. Each of them has its entries
where their keys hash to (`Reached.placed`).
-/

namespace ArenaHash.Keyed

variable {s : Table.Shape} {K V A S : Type} [BEq K] [Allocator A] {f : S → K → UInt64}
  {c c' : Keyed s K V A S} {heap heap' : Heap A}

inductive Step (f : S → K → UInt64) (c : Keyed s K V A S) (heap : Heap A) :
    Keyed s K V A S → Heap A → Prop where
  | map {ρ : Type} (call : Map.Call K V ρ) :
    Step f c heap (Map.perform (.ofFun f) c heap call).2.1
      (Map.perform (.ofFun f) c heap call).2.2
  | multimap {ρ : Type} (call : Multimap.Call K V ρ) :
    Step f c heap (Multimap.perform (.ofFun f) c heap call).2.1
      (Multimap.perform (.ofFun f) c heap call).2.2
  | keep (k : K) (v : V) :
    Step f c heap (Map.insertIfNew (.ofFun f) c k v heap).2.1
      (Map.insertIfNew (.ofFun f) c k v heap).2.2
  | pop (position : Nat) :
    Step f c heap (c.pop position heap).2.2.1 (c.pop position heap).2.2.2
  | setDelegate (delegate : A) : Step f c heap (c.setDelegate delegate).2 heap
  | copied : Step f c heap c (c.copy heap).2
  | copy {d : Keyed s K V A S} {later : Heap A} (h : c.copy heap = (.ok d, later)) :
    Step f c heap d later

inductive Reached (f : S → K → UInt64) : Keyed s K V A S → Heap A → Prop where
  | new {heap : Heap A} {others : List (Loan A)} (builder : S) (delegate : A)
    (hl : heap.Lends others) : Reached f (.new builder delegate) heap
  | step {c c' : Keyed s K V A S} {heap heap' : Heap A} (h : Reached f c heap)
    (hs : c.Step f heap c' heap') : Reached f c' heap'
  /-- Other holders borrow and return. -/
  | elsewhere {c : Keyed s K V A S} {heap heap' : Heap A} {others : List (Loan A)}
    (h : Reached f c heap) (hl : heap'.Lends (c.table.loans c.table.refs ++ others)) :
    Reached f c heap'

/-! ## Calls that are steps -/

theorem Step.keySet {m : KeySet s K A S} {ρ : Type} (call : KeySet.Call K ρ) :
    Step f m heap (KeySet.perform (.ofFun f) m heap call).2.1
      (KeySet.perform (.ofFun f) m heap call).2.2 := by
  cases call with
  | insert k => exact .keep k ()
  | replace k => exact .map (.replace k ())
  | get k => exact .map (.common (.getEntry k))
  | contains k => exact .map (.common (.contains k))
  | count k => exact .map (.count k)
  | take k => exact .map (.common (.erase k))
  | filter keep state => exact .map (.common (.filter (KeySet.keepKey keep) state))
  | clear => exact .map (.common .clear)
  | renew => exact .map (.common .renew)
  | abandon => exact .map (.common .abandon)
  | setMaxLoad maxLoad => exact .map (.common (.setMaxLoad maxLoad))

theorem Step.keyBag {m : KeyBag s K A S} {ρ : Type} (call : KeyBag.Call K ρ) :
    Step f m heap (KeyBag.perform (.ofFun f) m heap call).2.1
      (KeyBag.perform (.ofFun f) m heap call).2.2 := by
  rw [KeyBag.perform_eq]
  exact .multimap call.onEntries.2.1

/-- Inserting many items is a run of steps, if inserting one is a step. -/
theorem Reached.insertMany {ι : Type} {insert : Insertion ι (Keyed s K V A S) A}
    (hstep : ∀ (x : ι) (c : Keyed s K V A S) (heap : Heap A),
      c.Step f heap (insert c x heap).2.1 (insert c x heap).2.2)
    (items : List ι) (h : Reached f c heap) :
    Reached f (insertMany insert c items heap).2.1 (insertMany insert c items heap).2.2 := by
  induction items generalizing c heap with
  | nil => exact h
  | cons x items ih =>
    have hx := h.step (hstep x c heap)
    unfold Keyed.insertMany
    rcases hi : insert c x heap with ⟨_ | _, c', heap'⟩
    · rw [hi] at hx
      exact hx
    · rw [hi] at hx
      exact ih hx

theorem Step.map_insertion (x : K × V) (m : Map s K V A S) (heap : Heap A) :
    m.Step f heap (Map.insertion (.ofFun f) m x heap).2.1
      (Map.insertion (.ofFun f) m x heap).2.2 :=
  .map (.insert x.1 x.2)

theorem Step.keySet_insertion (k : K) (m : KeySet s K A S) (heap : Heap A) :
    m.Step f heap (KeySet.insertion (.ofFun f) m k heap).2.1
      (KeySet.insertion (.ofFun f) m k heap).2.2 :=
  .keep k ()

theorem Step.multimap_insertion (x : K × V) (m : Multimap s K V A S) (heap : Heap A) :
    m.Step f heap (Multimap.insertion (.ofFun f) m x heap).2.1
      (Multimap.insertion (.ofFun f) m x heap).2.2 :=
  .multimap (.insert x.1 x.2)

theorem Step.keyBag_insertion (k : K) (m : KeyBag s K A S) (heap : Heap A) :
    m.Step f heap (KeyBag.insertion (.ofFun f) m k heap).2.1
      (KeyBag.insertion (.ofFun f) m k heap).2.2 :=
  .multimap (.insert k ())

/-! ## Every step keeps entries in place -/

variable {rows : Rows (K × V)} {others : List (Loan A)}

omit [BEq K] in
/-- An insertion puts the new entry where its key hashes to, and so it does with the entries that
it regroups. -/
theorem Placed.inserted (h : c.Placed f heap rows others) {k : K} {v : V}
    {add : Ref → List (Cell (K × V)) → List (Cell (K × V))}
    (hadd : ∀ q cs, ∀ d ∈ add q cs, d = s.cell q (f c.builder k) (k, v) ∨ d ∈ cs)
    {result : Except MemoryError Ref × Table s (K × V) A × Heap A}
    (hi : Table.Inserted c.table heap rows others (f c.builder k) (c.hasher (.ofFun f)) add
      result) :
    ∃ rows', Placed f { c with table := result.2.1 } result.2.2 rows' others ∧
      ∀ q, result.1 = .ok q → ∃ i cs, rows' i = add q cs := by
  cases hi with
  | @done rows' q t' heap' regrouped stores continues granted =>
    have hplaced := h.placed.regrouped (fun _ _ => rfl) regrouped
    refine ⟨_, ⟨stores, hplaced.put_new q (k, v) (hadd q _)⟩, ?_⟩
    rintro _ ⟨⟩
    exact ⟨_, _, Rows.put_self _ _ _⟩
  | @denied rows' e t' heap' regrouped stores r continues denied =>
    exact ⟨rows', ⟨stores, h.placed.regrouped (fun _ _ => rfl) regrouped⟩, nofun⟩

omit [BEq K] in
/-- The heap may be any that lends the container what it holds. -/
theorem Placed.elsewhere (h : c.Placed f heap rows others) {others' : List (Loan A)}
    (hl : heap'.Lends (c.table.loans c.table.refs ++ others')) :
    c.Placed f heap' rows others' := by
  refine ⟨h.stores.rebase ?_, h.placed⟩
  rwa [List.append_nil, ← h.stores.refs_eq]

omit [BEq K] in
theorem Placed.modifyAt (h : c.Placed f heap rows others) {i : Nat} {cell : Cell (K × V)}
    (hc : cell ∈ rows i) (g : V → V) :
    ∃ rows', (c.modifyAt cell.ref g).2.Placed f heap rows' others := by
  obtain ⟨pre, post, hrow⟩ := List.append_of_mem hc
  rw [modifyAt_eq h.stores hc]
  refine ⟨_, h.of_tags _ (h.stores.setEntry hrow _) rfl rfl (tags_put ?_)⟩
  rw [hrow]
  simp [Cell.tag]

section

variable (h : c.Placed f heap rows others)
include h

omit [BEq K] in
theorem Placed.add (k : K) (v : V) :
    ∃ rows', (Map.add (.ofFun f) c k v heap).2.1.Placed f
        (Map.add (.ofFun f) c k v heap).2.2 rows' others ∧
      ∀ q, (Map.add (.ofFun f) c k v heap).1 = .ok q → ∃ i, ∃ d ∈ rows' i, d.ref = q := by
  obtain ⟨rows', hp, hrow⟩ := h.inserted (fun _ _ _ hd => List.mem_cons.mp hd)
    (h.stores.insertFront (f c.builder k) (k, v) (c.hasher (.ofFun f)))
  refine ⟨rows', hp, fun q hq => ?_⟩
  obtain ⟨i, cs, hi⟩ := hrow q hq
  exact ⟨i, _, hi ▸ List.mem_cons_self, rfl⟩

variable (hf : Hashing.Faithful f)
include hf

theorem Placed.insertIfNew (k : K) (v : V) :
    ∃ rows', (Map.insertIfNew (.ofFun f) c k v heap).2.1.Placed f
        (Map.insertIfNew (.ofFun f) c k v heap).2.2 rows' others ∧
      ∀ q isNew, (Map.insertIfNew (.ofFun f) c k v heap).1 = .ok (q, isNew) →
        ∃ i, ∃ d ∈ rows' i, d.ref = q := by
  unfold Map.insertIfNew
  rcases h.hit_or_miss hf k with ⟨-, hfind, -⟩ | ⟨pre, cell, post, hit⟩
  · obtain ⟨rows', hp, hrow⟩ := h.add k v
    rcases hr : Map.add (.ofFun f) c k v heap with ⟨e | q, m, later⟩
    · rw [hr] at hp
      simp only [hfind]
      exact ⟨rows', hp, nofun⟩
    · rw [hr] at hp hrow
      simp only [hfind]
      refine ⟨rows', hp, ?_⟩
      rintro _ isNew ⟨⟩
      exact hrow q rfl
  · simp only [hit.find?]
    refine ⟨rows, h, ?_⟩
    rintro q isNew ⟨⟩
    exact ⟨c.bucketOf (.ofFun f) k, cell, by simp [hit.row], rfl⟩

variable [EquivBEq K]

theorem Placed.map {ρ : Type} (call : Map.Call K V ρ) :
    ∃ rows' more, (Map.perform (.ofFun f) c heap call).2.1.Placed f
      (Map.perform (.ofFun f) c heap call).2.2 rows' (more ++ others) := by
  cases call with
  | insert k v =>
    unfold Map.perform Map.insert
    rcases h.hit_or_miss hf k with ⟨-, -, hl⟩ | ⟨pre, cell, post, hit⟩
    · obtain ⟨rows', hp, -⟩ := h.add k v
      simp only [hl]
      exact ⟨rows', [], hp⟩
    · simp only [hit.locate?]
      exact ⟨_, [], (hit.set h hf (cell.entry.1, v) hit.hasKey).1⟩
  | replace k v =>
    unfold Map.perform Map.replace
    rcases h.hit_or_miss hf k with ⟨-, -, hl⟩ | ⟨pre, cell, post, hit⟩
    · obtain ⟨rows', hp, -⟩ := h.add k v
      simp only [hl]
      exact ⟨rows', [], hp⟩
    · simp only [hit.locate?]
      exact ⟨_, [], (hit.set h hf (k, v) BEq.rfl).1⟩
  | insertIfNew k v g =>
    obtain ⟨rows', hp, hrow⟩ := h.insertIfNew hf k v
    rcases hr : Map.insertIfNew (.ofFun f) c k v heap with ⟨e | ⟨q, isNew⟩, m, later⟩
    · rw [hr] at hp
      simp only [Map.perform, hr]
      exact ⟨rows', [], hp⟩
    · rw [hr] at hp hrow
      obtain ⟨i, d, hd, rfl⟩ := hrow q isNew rfl
      obtain ⟨rows'', hp'⟩ := hp.modifyAt hd g
      simp only [Map.perform, hr]
      exact ⟨rows'', [], hp'⟩
  | count k => exact ⟨rows, [], h⟩
  | common call =>
    obtain ⟨c', heap', rows', hrun, hc⟩ := h.perform hf call
    simp only [Map.perform, hrun]
    exact ⟨rows', _, hc.placed⟩

omit [EquivBEq K] in
theorem Placed.multimap {ρ : Type} (call : Multimap.Call K V ρ) :
    ∃ rows' more, (Multimap.perform (.ofFun f) c heap call).2.1.Placed f
      (Multimap.perform (.ofFun f) c heap call).2.2 rows' (more ++ others) := by
  cases call with
  | insert k v =>
    obtain ⟨rows', hp, -⟩ := h.inserted (fun _ _ _ hd => mem_besideFirst hd)
      (h.stores.insertBeside (f c.builder k) (k, v) (hasKey k) (c.hasher (.ofFun f)))
    exact ⟨rows', [], hp⟩
  | count k => exact ⟨rows, [], h⟩
  | equalRun k => exact ⟨rows, [], h⟩
  | eraseAll k =>
    obtain ⟨c', heap', rows', hrun, hc⟩ := h.becomes_eraseAll hf k
    simp only [Multimap.perform, hrun]
    exact ⟨rows', [], hc.placed⟩
  | common call =>
    obtain ⟨c', heap', rows', hrun, hc⟩ := h.perform hf call
    simp only [Multimap.perform, hrun]
    exact ⟨rows', _, hc.placed⟩

/-- Whoever else borrows from the heap is not touched by a step; nodes that are abandoned and
originals of copies join them. -/
theorem Step.placed (hs : c.Step f heap c' heap') :
    ∃ rows' more, c'.Placed f heap' rows' (more ++ others) := by
  cases hs with
  | map call => exact h.map hf call
  | multimap call => exact h.multimap hf call
  | keep k v =>
    obtain ⟨rows', hp, -⟩ := h.insertIfNew hf k v
    exact ⟨rows', [], hp⟩
  | pop position =>
    rcases h.pop_cases position with
      ⟨hrun, -⟩ | ⟨i, cell, right, d, later, rows', hrun, -, -, -, -, hc⟩
    · rw [hrun]
      exact ⟨rows, [], h⟩
    · rw [hrun]
      exact ⟨rows', [], hc.placed⟩
  | setDelegate delegate => exact ⟨rows, [], (h.becomes_setDelegate delegate).placed⟩
  | copied =>
    rw [copy_heap]
    rcases hr : c.table.copy heap with ⟨e | t', later⟩
    · exact ⟨rows, [], (h.stores.copy_error hr).1, h.placed⟩
    · obtain ⟨-, -, hs, -⟩ := h.stores.copy_ok hr
      exact ⟨rows, _, hs, h.placed⟩
  | copy hr =>
    obtain ⟨rows', hc⟩ := h.becomes_copy hr
    exact ⟨rows', _, hc.placed⟩

end

theorem Reached.placed [EquivBEq K] (hf : Hashing.Faithful f) (h : Reached f c heap) :
    ∃ rows others, c.Placed f heap rows others := by
  induction h with
  | new builder delegate hl => exact ⟨_, _, placed_new builder delegate hl⟩
  | step _ hs ih =>
    obtain ⟨rows, others, hp⟩ := ih
    obtain ⟨rows', more, hp'⟩ := hs.placed hp hf
    exact ⟨rows', _, hp'⟩
  | elsewhere _ hl ih =>
    obtain ⟨rows, others, hp⟩ := ih
    exact ⟨rows, _, hp.elsewhere hl⟩

end ArenaHash.Keyed
