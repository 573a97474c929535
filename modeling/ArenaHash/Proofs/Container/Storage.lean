import ArenaHash.Proofs.Container.Calls
import ArenaHash.Proofs.Table.Copies
import ArenaHash.Proofs.Table.Walks

/-!
# What calls leave stored

Every call takes a container that stores some rows to one that stores some rows, whatever the
hashes are, with the same loans to others. The one exception is `abandon`, after which the loans of
the nodes are no longer the container's own (`Call.abandoned`).
-/

namespace ArenaHash

/-- Changes the values of the first entries of a list, as far as the changes go. -/
def changeList {K V : Type} : List (V → V) → List (K × V) → List (K × V) × List (K × V)
  | f :: fs, (k, v) :: l =>
    let (entries, rest) := changeList fs l
    ((k, f v) :: entries, (k, f v) :: rest)
  | _, l => ([], l)

/-- What a change of values leaves of a cell. -/
def Cell.tag {K V : Type} (c : Cell (K × V)) : K × Option UInt64 := (c.entry.1, c.hash)

namespace Keyed

variable {s : Table.Shape} {K V A S : Type} [Allocator A] {c : Keyed s K V A S} {heap : Heap A}
  {rows : Rows (K × V)} {others : List (Loan A)}

theorem modifyAt_eq (h : c.table.Stores heap rows [] others) {i : Nat} {cell : Cell (K × V)}
    (hc : cell ∈ rows i) (f : V → V) :
    c.modifyAt cell.ref f =
      (some cell.entry.2,
        { c with table := c.table.setEntry cell.ref (cell.entry.1, f cell.entry.2) }) := by
  unfold modifyAt
  rw [h.entryAt?_eq (h.mem_cells hc)]

/-! ## Copies and lists of items -/

section

variable {d : Keyed s K V A S} {later : Heap A}

theorem table_copy_of_ok (h : c.copy heap = (.ok d, later)) :
    ∃ table, c.table.copy heap = (.ok table, later) ∧ d = { c with table } := by
  unfold copy at h
  rcases hr : c.table.copy heap with ⟨_ | table, _⟩ <;> rw [hr] at h <;> cases h
  exact ⟨table, rfl, rfl⟩

theorem table_copy_of_error {e : MemoryError} (h : c.copy heap = (.error e, later)) :
    c.table.copy heap = (.error e, later) := by
  unfold copy at h
  rcases hr : c.table.copy heap with ⟨_ | _, _⟩ <;> rw [hr] at h <;> cases h
  rfl

theorem table_copy (c : Keyed s K V A S) (heap : Heap A) :
    ((c.copy heap).1.map Keyed.table, (c.copy heap).2) = c.table.copy heap := by
  unfold copy
  rcases c.table.copy heap with ⟨_ | _, _⟩ <;> rfl

theorem copy_heap (c : Keyed s K V A S) (heap : Heap A) :
    (c.copy heap).2 = (c.table.copy heap).2 :=
  congrArg Prod.snd (c.table_copy heap)

variable {ι : Type} {insert : Insertion ι (Keyed s K V A S) A} {builder : S} {delegate : A}
  {items : List ι}

theorem insertMany_of_ofList_ok (h : ofList insert builder delegate items heap = (.ok c, later)) :
    insertMany insert (new builder delegate) items heap = (.ok (), c, later) := by
  unfold ofList at h
  rcases hr : insertMany insert (new builder delegate) items heap with ⟨_ | _, _, _⟩ <;>
    rw [hr] at h <;> cases h
  rfl

theorem insertMany_of_ofList_error {e : MemoryError}
    (h : ofList insert builder delegate items heap = (.error e, later)) :
    ∃ c middle, insertMany insert (new builder delegate) items heap = (.error e, c, middle) ∧
      later = c.dispose middle := by
  unfold ofList at h
  rcases hr : insertMany insert (new builder delegate) items heap with ⟨_ | _, c, middle⟩ <;>
    rw [hr] at h <;> cases h
  exact ⟨c, middle, rfl, rfl⟩

end

/-! ## Walks -/

/-- A walk of changes changes the cells ahead, one by one. -/
theorem changeAlong_stores (changes : List (V → V)) :
    ∀ {c : Keyed s K V A S} {rows : Rows (K × V)} {before after : List (Cell (K × V))}
      {cursor : Cursor}, c.table.Stores heap rows [] others →
      rows.all c.table.bucketCount = before ++ after → cursor.Ahead c.table after →
      ∃ c' rows' after', changeAlong changes c cursor =
          ((changeList changes (after.map Cell.entry)).1, c') ∧
        c'.builder = c.builder ∧ c'.table.bucketCount = c.table.bucketCount ∧
        c'.table.Stores heap rows' [] others ∧
        rows'.all c.table.bucketCount = before ++ after' ∧
        after'.map Cell.entry = (changeList changes (after.map Cell.entry)).2 ∧
        (∀ i, (rows' i).map Cell.tag = (rows i).map Cell.tag) ∧
        after'.map Cell.place = after.map Cell.place := by
  induction changes with
  | nil =>
    intro c rows before after cursor h hall hahead
    exact ⟨c, rows, after, by cases after <;> rfl, rfl, rfl, h, hall, by cases after <;> rfl,
      fun _ => rfl, rfl⟩
  | cons f fs ih =>
    intro c rows before after cursor h hall hahead
    cases after with
    | nil =>
      refine ⟨c, rows, [], ?_, rfl, rfl, h, hall, rfl, fun _ => rfl, rfl⟩
      simp [changeAlong, changeNext?, hahead.step?_nil, changeList]
    | cons d after =>
      obtain ⟨next, hstep, hahead'⟩ := hahead.step?_cons
      have hentry : c.table.entryAt? d.ref = some d.entry := h.entryAt?_eq (by simp [hall])
      obtain ⟨i, pre, post, hrow, hs, hall'⟩ := h.overwrite hall (d.entry.1, f d.entry.2)
      obtain ⟨c', rows', after', hrun, hb, hcount, hs', hall'', hafter, htag, hplace⟩ :=
        ih (c := { c with table := c.table.setEntry d.ref (d.entry.1, f d.entry.2) }) hs
          (hall'.trans (List.append_cons _ _ _)) (h.ahead_setEntry hall hahead' _)
      refine ⟨c', rows', ⟨d.ref, (d.entry.1, f d.entry.2), d.hash⟩ :: after', ?_, hb, hcount, hs',
        ?_, ?_, ?_, congrArg (d.place :: ·) hplace⟩
      · simp only [changeAlong, changeNext?, hstep, Option.bind_some, hentry, Option.map_some,
          List.map_cons, changeList, hrun]
      · rw [List.append_cons]
        exact hall''
      · simp only [List.map_cons, changeList, hafter]
      · intro j
        rw [htag]
        by_cases hj : j = i
        · subst hj
          rw [Rows.put_self, hrow]
          simp [Cell.tag]
        · rw [rows.put_of_ne hj]

omit [Allocator A] in
theorem next?_nil {cursor : Cursor} (hahead : cursor.Ahead c.table []) :
    c.next? cursor = none := by
  simp [next?, hahead.step?_nil]

theorem next?_cons (h : c.table.Stores heap rows [] others) {d : Cell (K × V)}
    {cs : List (Cell (K × V))} {cursor : Cursor} (hd : d ∈ rows.all c.table.bucketCount)
    (hahead : cursor.Ahead c.table (d :: cs)) :
    ∃ later, cursor.step? c.table = some (d.ref, later) ∧
      c.next? cursor = some (d.entry, later) ∧ later.Ahead c.table cs := by
  obtain ⟨later, hstep, hahead'⟩ := hahead.step?_cons
  have hentry : c.table.entryAt? d.ref = some d.entry :=
    h.entryAt?_eq (List.mem_append_left _ hd)
  exact ⟨later, hstep, by simp [next?, hstep, hentry], hahead'⟩

omit [Allocator A] in
theorem nextInRun?_nil {cursor : RunCursor} (hahead : cursor.Ahead c.table []) :
    c.nextInRun? cursor = none := by
  simp [nextInRun?, hahead.step?_nil]

theorem nextInRun?_cons (h : c.table.Stores heap rows [] others) {d : Cell (K × V)}
    {cs : List (Cell (K × V))} {cursor : RunCursor} (hd : d ∈ rows.all c.table.bucketCount)
    (hahead : cursor.Ahead c.table (d :: cs)) :
    ∃ later, c.nextInRun? cursor = some (d.entry, later) ∧ later.Ahead c.table cs := by
  obtain ⟨later, hstep, hahead'⟩ := hahead.step?_cons
  have hentry : c.table.entryAt? d.ref = some d.entry :=
    h.entryAt?_eq (List.mem_append_left _ hd)
  exact ⟨later, by simp [nextInRun?, hstep, hentry], hahead'⟩

/-- The entries that a walk comes to are those of the cells ahead. -/
theorem walk_eq (h : c.table.Stores heap rows [] others) :
    ∀ {after : List (Cell (K × V))} {limit : Nat} {cursor : Cursor},
      (∀ cell ∈ after, cell ∈ rows.all c.table.bucketCount) → cursor.Ahead c.table after →
        c.walk limit cursor = (after.map Cell.entry).take limit
  | _, 0, _, _, _ => rfl
  | [], limit + 1, cursor, _, hahead => by simp [walk, next?_nil hahead]
  | d :: after, limit + 1, cursor, hmem, hahead => by
    obtain ⟨later, -, hnext, hahead'⟩ := next?_cons h (hmem d List.mem_cons_self) hahead
    have ih : c.walk limit later = _ :=
      walk_eq h (fun cell hc => hmem cell (List.mem_cons_of_mem _ hc)) hahead'
    simp [walk, hnext, ih]

/-- An iterator yields all entries, bucket by bucket. -/
theorem walked_eq (h : c.table.Stores heap rows [] others) : c.walked = c.toList := by
  have hsize : c.size = (rows.all c.table.bucketCount).length := by
    rw [size, h.size_eq, List.append_nil]
  have hwalk : c.walked = ((rows.all c.table.bucketCount).map Cell.entry).take c.size :=
    walk_eq h (fun _ hc => hc) h.ahead
  rw [hwalk, List.take_of_length_le (by rw [List.length_map, hsize]), toList, h.toList_eq]

theorem walkRun_eq (h : c.table.Stores heap rows [] others) :
    ∀ {after : List (Cell (K × V))} {limit : Nat} {cursor : RunCursor},
      (∀ cell ∈ after, cell ∈ rows.all c.table.bucketCount) → cursor.Ahead c.table after →
        c.walkRun limit cursor = (after.map Cell.entry).take limit
  | _, 0, _, _, _ => rfl
  | [], limit + 1, cursor, _, hahead => by simp [walkRun, nextInRun?_nil hahead]
  | d :: after, limit + 1, cursor, hmem, hahead => by
    obtain ⟨later, hnext, hahead'⟩ := nextInRun?_cons h (hmem d List.mem_cons_self) hahead
    have ih : c.walkRun limit later = _ :=
      walkRun_eq h (fun cell hc => hmem cell (List.mem_cons_of_mem _ hc)) hahead'
    simp [walkRun, hnext, ih]

section Lookup

variable [BEq K] (H : Hashing S K)

/-- The cells that a lookup of a key stops at. -/
def isFor (c : Keyed s K V A S) (k : K) : Cell (K × V) → Bool :=
  Cell.isMatch (H.key c.builder k) (hasKey k)

theorem lookup_cases (h : c.table.Stores heap rows [] others) (k : K) :
    (rows (c.bucketOf H k)).find? (c.isFor H k) = none ∧ c.find? H k = none ∧
        c.locate? H k = none ∨
      ∃ pre cell post, rows (c.bucketOf H k) = pre ++ cell :: post ∧
        (∀ d ∈ pre, !c.isFor H k d) ∧ c.isFor H k cell ∧ c.find? H k = some cell.ref ∧
        c.locate? H k = some (cell.ref, cell.entry) := by
  have hfind : c.find? H k = ((rows (c.bucketOf H k)).find? (c.isFor H k)).map Cell.ref :=
    h.find?_eq _ _
  cases hf : (rows (c.bucketOf H k)).find? (c.isFor H k) with
  | none =>
    rw [hf] at hfind
    exact .inl ⟨rfl, hfind, by rw [locate?, hfind]; rfl⟩
  | some cell =>
    obtain ⟨hc, pre, post, hrow, hpre⟩ := List.find?_eq_some_iff_append.mp hf
    rw [hf] at hfind
    have hentry : c.table.entryAt? cell.ref = some cell.entry :=
      h.entryAt?_eq (h.mem_cells (List.mem_of_find?_eq_some hf))
    refine .inr ⟨pre, cell, post, hrow, hpre, hc, hfind, ?_⟩
    rw [locate?, hfind]
    simp [hentry]

end Lookup

/-! ## Common calls -/

/-- What a filter of keys and values does to an entry. -/
def keepEntry {σ : Type} (keep : σ → K → V → Bool × V × σ) (state : σ) (entry : K × V) :
    Bool × (K × V) × σ :=
  let (kept, v, state) := keep state entry.1 entry.2
  (kept, (entry.1, v), state)

theorem filter_eq {σ : Type} (c : Keyed s K V A S) (keep : σ → K → V → Bool × V × σ) (state : σ)
    (heap : Heap A) :
    c.filter keep state heap =
      let (state, table, heap) := c.table.filter (keepEntry keep) state heap
      (state, { c with table }, heap) := rfl

/-- The loans that a call leaves to no one. -/
def Call.abandoned {ρ : Type} (call : Call K V ρ) (c : Keyed s K V A S) : List (Loan A) :=
  match call with
  | .abandon => c.table.nodes.loans c.table.refs
  | _ => []

theorem perform_stores [BEq K] (H : Hashing S K) {ρ : Type} (call : Call K V ρ)
    (h : c.table.Stores heap rows [] others) :
    ∃ rows', (perform H c heap call).2.1.table.Stores (perform H c heap call).2.2 rows' []
      (call.abandoned c ++ others) := by
  cases call with
  | get k => exact ⟨rows, h⟩
  | getEntry k => exact ⟨rows, h⟩
  | contains k => exact ⟨rows, h⟩
  | modify k f =>
    unfold perform modify
    rcases lookup_cases H h k with ⟨-, hf, -⟩ | ⟨pre, cell, post, hrow, -, -, hf, -⟩
    · simp only [hf]
      exact ⟨rows, h⟩
    · have hc : cell ∈ rows (c.bucketOf H k) := by simp [hrow]
      simp only [hf, modifyAt_eq h hc]
      exact ⟨_, h.setEntry hrow _⟩
  | erase k =>
    rcases lookup_cases H h k with ⟨hnone, -⟩ | ⟨pre, cell, post, hrow, hpre, hc, -⟩
    · simp only [perform, erase, h.erase_of_none hnone]
      exact ⟨rows, h⟩
    · obtain ⟨t', heap', hrun, hs, -⟩ := h.erase_of_first hrow hpre hc
      simp only [perform, erase, hrun]
      exact ⟨_, hs⟩
  | filter keep state =>
    obtain ⟨t', heap', hrun, hs, -⟩ := h.filter (keepEntry keep) state
    exact ⟨_, by simp only [perform, filter_eq, hrun]; exact hs⟩
  | change changes =>
    obtain ⟨c', rows', after', hrun, -, -, hs, -⟩ :=
      changeAlong_stores changes h (List.nil_append _).symm h.ahead
    refine ⟨rows', ?_⟩
    simp only [perform, cursor, hrun]
    exact hs
  | clear =>
    obtain ⟨t', heap', hrun, hs, -⟩ := h.clear
    exact ⟨_, by simp only [perform, clear, hrun]; exact hs⟩
  | renew => exact ⟨_, h.renew⟩
  | abandon => exact ⟨_, h.abandon⟩
  | setMaxLoad maxLoad => exact ⟨rows, h.setMaxLoad maxLoad⟩

end Keyed

/-! ## Insertions -/

namespace Table

variable {s : Shape} {T A : Type} [Allocator A] {t : Table s T A} {heap : Heap A} {rows : Rows T}
  {others : List (Loan A)} {hash : UInt64} {hasher : Ref → T → UInt64}
  {add : Ref → List (Cell T) → List (Cell T)}
  {result : Except MemoryError Ref × Table s T A × Heap A}

theorem Inserted.stores (h : Inserted t heap rows others hash hasher add result) :
    ∃ rows', result.2.1.Stores result.2.2 rows' [] others := by
  cases h with
  | done _ hs => exact ⟨_, hs⟩
  | denied _ hs => exact ⟨_, hs⟩

/-- A granted handle is that of the new cell. -/
theorem Inserted.mem_row (h : Inserted t heap rows others hash hasher add result)
    (hadd : ∀ q cs, ∃ c ∈ add q cs, c.ref = q) {q : Ref} {t' : Table s T A} {heap' : Heap A}
    (hok : result = (.ok q, t', heap')) :
    ∃ rows' i, t'.Stores heap' rows' [] others ∧ ∃ c ∈ rows' i, c.ref = q := by
  cases h with
  | @done rows' q' t'' heap'' _ hs =>
    cases hok
    refine ⟨_, t'.bucketOf hash, hs, ?_⟩
    rw [Rows.put_self]
    exact hadd q _
  | denied => cases hok

end Table

namespace Map

variable {s : Table.Shape} {K V A S : Type} [BEq K] [Allocator A]
  {m : Map s K V A S} {heap : Heap A} {rows : Rows (K × V)} {others : List (Loan A)}

def Call.abandoned {ρ : Type} (call : Call K V ρ) (m : Map s K V A S) : List (Loan A) :=
  match call with
  | .common call => call.abandoned m
  | _ => []

omit [BEq K] in
/-- An entry whose key is absent is added in front of its row. -/
theorem add_inserted (H : Hashing S K) (h : m.table.Stores heap rows [] others) (k : K) (v : V) :
    ∃ result t' heap', add H m k v heap = (result, { m with table := t' }, heap') ∧
      Table.Inserted m.table heap rows others (H.key m.builder k) (m.hasher H)
        (fun q cs => s.cell q (H.key m.builder k) (k, v) :: cs) (result, t', heap') :=
  ⟨_, _, _, rfl, h.insertFront _ _ _⟩

theorem perform_stores (H : Hashing S K) {ρ : Type} (call : Call K V ρ)
    (h : m.table.Stores heap rows [] others) :
    ∃ rows', (perform H m heap call).2.1.table.Stores (perform H m heap call).2.2 rows' []
      (call.abandoned m ++ others) := by
  cases call with
  | insert k v =>
    obtain ⟨result, t', heap', hadd, hi⟩ := add_inserted H h k v
    unfold perform insert
    rcases Keyed.lookup_cases H h k with ⟨-, -, hl⟩ | ⟨pre, cell, post, hrow, -, -, -, hl⟩
    · simp only [hl, hadd]
      exact hi.stores
    · simp only [hl]
      exact ⟨_, h.setEntry hrow _⟩
  | insertIfNew k v f =>
    obtain ⟨result, t', heap', hadd, hi⟩ := add_inserted H h k v
    unfold perform insertIfNew
    rcases Keyed.lookup_cases H h k with ⟨-, hf, -⟩ | ⟨pre, cell, post, hrow, -, -, hf, -⟩
    · simp only [hf, hadd]
      cases result with
      | error e => exact hi.stores
      | ok q =>
        obtain ⟨rows', i, hs, c, hc, rfl⟩ :=
          hi.mem_row (fun q cs => ⟨_, List.mem_cons_self, rfl⟩) rfl
        obtain ⟨pre, post, hrow⟩ := List.append_of_mem hc
        simp only [Except.map, Keyed.modifyAt_eq (c := { m with table := t' }) hs hc]
        exact ⟨_, hs.setEntry hrow _⟩
    · have hc : cell ∈ rows (m.bucketOf H k) := by simp [hrow]
      simp only [hf, Keyed.modifyAt_eq h hc]
      exact ⟨_, h.setEntry hrow _⟩
  | replace k v =>
    obtain ⟨result, t', heap', hadd, hi⟩ := add_inserted H h k v
    unfold perform replace
    rcases Keyed.lookup_cases H h k with ⟨-, -, hl⟩ | ⟨pre, cell, post, hrow, -, -, -, hl⟩
    · simp only [hl, hadd]
      exact hi.stores
    · simp only [hl]
      exact ⟨_, h.setEntry hrow _⟩
  | count k => exact ⟨rows, h⟩
  | common call => exact Keyed.perform_stores H call h

end Map

namespace Multimap

variable {s : Table.Shape} {K V A S : Type} [BEq K] [Allocator A]
  {m : Multimap s K V A S} {heap : Heap A} {rows : Rows (K × V)} {others : List (Loan A)}

def Call.abandoned {ρ : Type} (call : Call K V ρ) (m : Multimap s K V A S) : List (Loan A) :=
  match call with
  | .common call => call.abandoned m
  | _ => []

theorem perform_stores (H : Hashing S K) {ρ : Type} (call : Call K V ρ)
    (h : m.table.Stores heap rows [] others) :
    ∃ rows', (perform H m heap call).2.1.table.Stores (perform H m heap call).2.2 rows' []
      (call.abandoned m ++ others) := by
  cases call with
  | insert k v => exact (h.insertBeside _ _ _ _).stores
  | count k => exact ⟨rows, h⟩
  | equalRun k => exact ⟨rows, h⟩
  | eraseAll k =>
    obtain ⟨t', heap', hrun, hs, -⟩ := h.eraseAll (H.key m.builder k) (Keyed.hasKey k)
    simp only [perform, Keyed.eraseAll, hrun]
    exact ⟨_, hs⟩
  | common call => exact Keyed.perform_stores H call h

end Multimap

end ArenaHash
