import ArenaHash.Proofs.Container.Storage

/-!
# Iterators

An iterator tells how many items are still to come, and each call answers the next one or none.
`it.Yields state items`: from `state` on it answers exactly `items` and then none for ever, and at
any time tells how many are left. To see it, one relates the states to what is still to come by a
relation that one call respects (`Tracks`).

The iterators of a container differ in what they go through: entries that are shown, entries that
are changed, the container itself, which loses what it answers, and a stretch of equal keys. They
all come to the same nodes.
-/

namespace ArenaHash

structure Iterator (σ ι : Type) where
  /-- The number of items that are said to come. -/
  left : σ → Nat
  next : σ → Option ι × σ

namespace Iterator

variable {σ τ ι κ : Type} (it : Iterator σ ι)

/-- An iterator that stays where it is when it has nothing to answer. -/
def ofStep (left : σ → Nat) (step : σ → Option (ι × σ)) : Iterator σ ι where
  left := left
  next state :=
    match step state with
    | some (x, later) => (some x, later)
    | none => (none, state)

/-- The state after a number of calls. -/
def after : (calls : Nat) → σ → σ
  | 0, state => state
  | calls + 1, state => after calls (it.next state).2

theorem after_add (i j : Nat) (state : σ) :
    it.after i (it.after j state) = it.after (j + i) state := by
  induction j generalizing state with
  | zero => rw [Nat.zero_add]; rfl
  | succ j ih => rw [Nat.succ_add]; exact ih _

structure Yields (state : σ) (items : List ι) : Prop where
  answers : ∀ j, (it.next (it.after j state)).1 = items[j]?
  left : ∀ j, it.left (it.after j state) = (items.drop j).length
  /-- Nothing is subtracted from zero. -/
  counts : ∀ j, (it.next (it.after j state)).1.isSome →
    it.left (it.after j state) = it.left (it.after (j + 1) state) + 1
  /-- What a copy that is made after `j` calls answers, while the original goes on or not. -/
  copies : ∀ j i, (it.next (it.after i (it.after j state))).1 = (items.drop j)[i]?

/-- `I` relates states to what is still to come. -/
structure Tracks (I : List ι → σ → Prop) : Prop where
  left : ∀ {items state}, I items state → it.left state = items.length
  head : ∀ {items state}, I items state → (it.next state).1 = items.head?
  tail : ∀ {items state}, I items state → I items.tail (it.next state).2

/-- Two iterators move together if every call keeps their states related. -/
theorem after_related (it' : Iterator τ κ) {R : σ → τ → Prop}
    (hstep : ∀ {a b}, R a b → R (it.next a).2 (it'.next b).2) {a : σ} {b : τ} (h : R a b)
    (j : Nat) : R (it.after j a) (it'.after j b) := by
  induction j generalizing a b with
  | zero => exact h
  | succ j ih => exact ih (hstep h)

variable {it} {I : List ι → σ → Prop} {state : σ} {items : List ι}

theorem Tracks.after (h : it.Tracks I) (hI : I items state) (j : Nat) :
    I (items.drop j) (it.after j state) := by
  induction j generalizing items state with
  | zero => exact hI
  | succ j ih =>
    rw [← List.drop_tail]
    exact ih (h.tail hI)

theorem Tracks.yields (h : it.Tracks I) (hI : I items state) : it.Yields state items := by
  have hanswers : ∀ j, (it.next (it.after j state)).1 = items[j]? := fun j => by
    rw [h.head (h.after hI j), List.head?_drop]
  have hleft : ∀ j, it.left (it.after j state) = (items.drop j).length :=
    fun j => h.left (h.after hI j)
  refine ⟨hanswers, hleft, fun j hj => ?_, fun j i => ?_⟩
  · rw [hanswers] at hj
    have hlt : j < items.length := by simpa using hj
    rw [hleft, hleft, List.length_drop, List.length_drop]
    omega
  · rw [after_add, hanswers, List.getElem?_drop]

theorem tracks_ofStep {left : σ → Nat} {step : σ → Option (ι × σ)}
    (hleft : ∀ {items state}, I items state → left state = items.length)
    (hnil : ∀ {state}, I [] state → step state = none)
    (hcons : ∀ {x items state}, I (x :: items) state →
      ∃ later, step state = some (x, later) ∧ I items later) :
    (ofStep left step).Tracks I where
  left := hleft
  head {items state} hI := by
    cases items with
    | nil => simp only [ofStep, hnil hI, List.head?_nil]
    | cons x items =>
      obtain ⟨later, hstep, -⟩ := hcons hI
      simp only [ofStep, hstep, List.head?_cons]
  tail {items state} hI := by
    cases items with
    | nil =>
      simp only [ofStep, hnil hI, List.tail_nil]
      exact hI
    | cons x items =>
      obtain ⟨later, hstep, hI'⟩ := hcons hI
      simp only [ofStep, hstep, List.tail_cons]
      exact hI'

end Iterator

/-! ## Nodes -/

namespace Table

variable {s : Shape} {T A : Type} {t t' : Table s T A}

/-- The nodes that a walk comes to. -/
def nodeIterator (t : Table s T A) : Iterator Cursor Ref :=
  .ofStep Cursor.remaining (Cursor.step? t)

theorem nodeIterator_tracks (t : Table s T A) :
    t.nodeIterator.Tracks fun qs cursor => ∃ cs, qs = cs.map Cell.ref ∧ cursor.Ahead t cs := by
  refine Iterator.tracks_ofStep ?_ ?_ ?_
  · rintro _ cursor ⟨cs, rfl, hahead⟩
    rw [hahead.1, List.length_map]
  · rintro cursor ⟨cs, hnil, hahead⟩
    obtain rfl := List.map_eq_nil_iff.mp hnil.symm
    exact hahead.step?_nil
  · rintro q qs cursor ⟨cs, hcons, hahead⟩
    obtain ⟨c, cs, rfl, rfl, rfl⟩ := List.map_eq_cons_iff.mp hcons.symm
    obtain ⟨later, hstep, hahead'⟩ := hahead.step?_cons
    exact ⟨later, hstep, cs, rfl, hahead'⟩

/-- A walk reads nothing but links. -/
theorem step?_congr (hnext : ∀ q, t'.nodes.next q = t.nodes.next q) (cursor : Cursor) :
    cursor.step? t' = cursor.step? t := by
  unfold Cursor.step?
  simp only [hnext]

theorem next_setEntry (t : Table s T A) (q : Ref) (entry : T) (p : Ref) :
    (t.setEntry q entry).nodes.next p = t.nodes.next p := by
  have hlink := t.nodes.map_read_modify q (fun n => { n with entry }) Node.next (fun _ => rfl) p
  have hbind := congrArg (Option.bind · id) hlink
  simp only [Option.bind_map, Function.id_comp] at hbind
  exact hbind

end Table

/-! ## Entries -/

namespace Keyed

variable {s : Table.Shape} {K V A S : Type}

/-- Shows the entries. -/
def iterator (c : Keyed s K V A S) : Iterator Cursor (K × V) :=
  .ofStep Cursor.remaining c.next?

/-- Shows the entries along a stretch of equal keys. -/
def runIterator (c : Keyed s K V A S) : Iterator RunCursor (K × V) :=
  .ofStep RunCursor.remaining c.nextInRun?

/-- Takes the entries out, starting with the first bucket. -/
def popIterator [Allocator A] : Iterator (Keyed s K V A S × Nat × Heap A) (K × V) where
  left := fun (c, _, _) => c.size
  next := fun (c, position, heap) =>
    let (entry, position, c, heap) := c.pop position heap
    (entry, c, position, heap)

variable [Allocator A] {c : Keyed s K V A S} {heap : Heap A} {rows : Rows (K × V)}
  {others : List (Loan A)}

/-- What an iterator that only looks still comes to. -/
def Shows (c : Keyed s K V A S) (rows : Rows (K × V)) (items : List (K × V))
    (cursor : Cursor) : Prop :=
  ∃ cs, items = cs.map Cell.entry ∧ (∀ d ∈ cs, d ∈ rows.all c.table.bucketCount) ∧
    cursor.Ahead c.table cs

theorem iterator_tracks (h : c.table.Stores heap rows [] others) :
    c.iterator.Tracks (c.Shows rows) := by
  refine Iterator.tracks_ofStep ?_ ?_ ?_
  · rintro _ cursor ⟨cs, rfl, -, hahead⟩
    rw [hahead.1, List.length_map]
  · rintro cursor ⟨cs, hnil, -, hahead⟩
    obtain rfl := List.map_eq_nil_iff.mp hnil.symm
    exact next?_nil hahead
  · rintro e items cursor ⟨cs, hcons, hmem, hahead⟩
    obtain ⟨d, cs, rfl, rfl, rfl⟩ := List.map_eq_cons_iff.mp hcons.symm
    obtain ⟨later, -, hnext, hahead'⟩ := next?_cons h (hmem d List.mem_cons_self) hahead
    exact ⟨later, hnext, cs, rfl, fun e he => hmem e (List.mem_cons_of_mem d he), hahead'⟩

/-- It moves from node to node. -/
theorem iterator_after (h : c.table.Stores heap rows [] others) (j : Nat) :
    c.iterator.after j c.cursor = c.table.nodeIterator.after j c.cursor := by
  have hstart : c.Shows rows _ c.cursor := ⟨_, rfl, fun _ hd => hd, h.ahead⟩
  refine (c.iterator.after_related c.table.nodeIterator
    (R := fun cursor cursor' => cursor = cursor' ∧ ∃ items, c.Shows rows items cursor)
    ?_ ⟨rfl, _, hstart⟩ j).1
  rintro cursor _ ⟨rfl, items, hI⟩
  refine ⟨?_, _, (iterator_tracks h).tail hI⟩
  obtain ⟨cs, rfl, hmem, hahead⟩ := hI
  cases cs with
  | nil =>
    simp only [iterator, Table.nodeIterator, Iterator.ofStep, next?_nil hahead, hahead.step?_nil]
  | cons d cs =>
    obtain ⟨later, hstep, hnext, -⟩ := next?_cons h (hmem d List.mem_cons_self) hahead
    simp only [iterator, Table.nodeIterator, Iterator.ofStep, hnext, hstep]

theorem runIterator_tracks (h : c.table.Stores heap rows [] others) :
    c.runIterator.Tracks fun items cursor => ∃ cs, items = cs.map Cell.entry ∧
      (∀ d ∈ cs, d ∈ rows.all c.table.bucketCount) ∧ cursor.Ahead c.table cs := by
  refine Iterator.tracks_ofStep ?_ ?_ ?_
  · rintro _ cursor ⟨cs, rfl, -, hahead⟩
    rw [hahead.1, List.length_map]
  · rintro cursor ⟨cs, hnil, -, hahead⟩
    obtain rfl := List.map_eq_nil_iff.mp hnil.symm
    exact nextInRun?_nil hahead
  · rintro e items cursor ⟨cs, hcons, hmem, hahead⟩
    obtain ⟨d, cs, rfl, rfl, rfl⟩ := List.map_eq_cons_iff.mp hcons.symm
    obtain ⟨later, hnext, hahead'⟩ := nextInRun?_cons h (hmem d List.mem_cons_self) hahead
    exact ⟨later, hnext, cs, rfl, fun e he => hmem e (List.mem_cons_of_mem d he), hahead'⟩

/-! ## Changing -/

section

variable {σ : Type}

variable (change : σ → K → V → V × σ)

/-- One call: the entry that is found, and what it is changed to. -/
def changeStep : Keyed s K V A S × Cursor × σ →
    Option ((K × V) × Keyed s K V A S × Cursor × σ) :=
  fun (c, cursor, state) =>
    (c.next? cursor).bind fun (entry, _) =>
      let (v, state) := change state entry.1 entry.2
      (c.changeNext? cursor fun _ => v).map fun (_, c, cursor) => (entry, c, cursor, state)

/-- Gives out the entries to be changed. They are answered as they were found; what becomes of a
value may depend on all that was seen before. -/
def changeIterator : Iterator (Keyed s K V A S × Cursor × σ) (K × V) :=
  .ofStep (fun (_, cursor, _) => cursor.remaining) (changeStep change)

/-- What an iterator that changes values still comes to. The links are those of the container it
started with. -/
def Changes (c : Keyed s K V A S) (heap : Heap A) (others : List (Loan A))
    (items : List (K × V)) : Keyed s K V A S × Cursor × σ → Prop
  | (c', cursor, _) => (∀ q, c'.table.nodes.next q = c.table.nodes.next q) ∧
    ∃ rows before after, c'.table.Stores heap rows [] others ∧
      rows.all c'.table.bucketCount = before ++ after ∧ cursor.Ahead c'.table after ∧
      items = after.map Cell.entry

variable {c' : Keyed s K V A S} {cursor : Cursor} {state : σ}

theorem changeStep_nil (h : c.Changes heap others [] (c', cursor, state)) :
    changeStep change (c', cursor, state) = none ∧ cursor.step? c.table = none := by
  obtain ⟨hlinks, rows, before, after, -, -, hahead, hnil⟩ := h
  obtain rfl := List.map_eq_nil_iff.mp hnil.symm
  rw [← Table.step?_congr hlinks, hahead.step?_nil]
  simp only [changeStep, next?_nil hahead, Option.bind_none, and_self]

/-- A call changes the entry of one cell and no links. -/
theorem changeStep_cons {e : K × V} {items : List (K × V)}
    (h : c.Changes heap others (e :: items) (c', cursor, state)) :
    ∃ q later c'' state', changeStep change (c', cursor, state) = some (e, c'', later, state') ∧
      cursor.step? c.table = some (q, later) ∧ c.Changes heap others items (c'', later, state') := by
  obtain ⟨hlinks, rows, before, after, h, hall, hahead, hcons⟩ := h
  obtain ⟨d, after, rfl, rfl, rfl⟩ := List.map_eq_cons_iff.mp hcons.symm
  have hentry : c'.table.entryAt? d.ref = some d.entry := h.entryAt?_eq (by simp [hall])
  obtain ⟨later, hstep, hnext, hahead'⟩ := next?_cons h (by simp [hall]) hahead
  obtain ⟨v, state', hchange⟩ : ∃ v state', change state d.entry.1 d.entry.2 = (v, state') :=
    ⟨_, _, rfl⟩
  obtain ⟨i, pre, post, -, hs, hall'⟩ := h.overwrite hall (d.entry.1, v)
  refine ⟨d.ref, later, { c' with table := c'.table.setEntry d.ref (d.entry.1, v) }, state', ?_,
    ?_, ?_, _, _, after, hs, hall'.trans (List.append_cons _ _ _),
    h.ahead_setEntry hall hahead' _, rfl⟩
  · simp only [changeStep, changeNext?, hnext, hstep, hentry, hchange, Option.bind_some,
      Option.map_some]
  · rw [← Table.step?_congr hlinks, hstep]
  · exact fun q => (c'.table.next_setEntry d.ref _ q).trans (hlinks q)

theorem changeIterator_tracks : (changeIterator change).Tracks (c.Changes heap others) := by
  refine Iterator.tracks_ofStep ?_ ?_ ?_
  · rintro _ ⟨c', cursor, state⟩ ⟨-, rows, before, after, -, -, hahead, rfl⟩
    rw [List.length_map, ← hahead.1]
  · exact fun h => (changeStep_nil change h).1
  · rintro e items ⟨c', cursor, state⟩ h
    obtain ⟨q, later, c'', state', hstep, -, h'⟩ := changeStep_cons change h
    exact ⟨_, hstep, h'⟩

theorem changes_start (h : c.table.Stores heap rows [] others) (state : σ) :
    c.Changes heap others c.toList (c, c.cursor, state) :=
  ⟨fun _ => rfl, rows, [], _, h, rfl, h.ahead, h.toList_eq⟩

/-- It comes to the same nodes, whatever it writes. -/
theorem changeIterator_after (h : c.table.Stores heap rows [] others) (state : σ) (j : Nat) :
    ((changeIterator change).after j (c, c.cursor, state)).2.1 =
      c.table.nodeIterator.after j c.cursor := by
  refine ((changeIterator change).after_related c.table.nodeIterator
    (R := fun x cursor => x.2.1 = cursor ∧ ∃ items, c.Changes heap others items x)
    ?_ ⟨rfl, _, changes_start h state⟩ j).1
  rintro ⟨c', cursor, state⟩ _ ⟨rfl, items, hI⟩
  refine ⟨?_, _, (changeIterator_tracks change).tail hI⟩
  cases items with
  | nil =>
    obtain ⟨hnone, hstep⟩ := changeStep_nil change hI
    simp only [changeIterator, Table.nodeIterator, Iterator.ofStep, hnone, hstep]
  | cons e items =>
    obtain ⟨q, later, c'', state', hsome, hstep, -⟩ := changeStep_cons change hI
    simp only [changeIterator, Table.nodeIterator, Iterator.ofStep, hsome, hstep]

end

/-! ## Taking out -/

/-- What `c` has come to while the slots `qs` were returned. No bucket before the position has a
node left. -/
structure Pops (c : Keyed s K V A S) (heap : Heap A) (others : List (Loan A)) (qs : List Ref)
    (items : List (K × V)) (c' : Keyed s K V A S) (position : Nat) (heap' : Heap A)
    (rows : Rows (K × V)) : Prop where
  stores : c'.table.Stores heap' rows [] others
  passed : ∀ i < position, rows i = []
  entries : items = (rows.all c'.table.bucketCount).map Cell.entry
  refs : c.table.refs = qs ++ c'.table.refs
  returned : c.table.Returned heap qs c'.table heap'

/-- What an owning iterator still comes to. -/
def PopsTo (c : Keyed s K V A S) (heap : Heap A) (others : List (Loan A))
    (items : List (K × V)) : Keyed s K V A S × Nat × Heap A → Prop
  | (c', position, heap') => ∃ qs rows, c.Pops heap others qs items c' position heap' rows

theorem popsTo_start (h : c.table.Stores heap rows [] others) :
    c.PopsTo heap others c.toList (c, 0, heap) :=
  ⟨[], rows, h, nofun, h.toList_eq, rfl, .refl c.table heap⟩

/-- A call takes out the first cell of all, if there is one. -/
theorem Pops.next {qs : List Ref} {items : List (K × V)} {c' : Keyed s K V A S} {position : Nat}
    {heap' : Heap A} (h : c.Pops heap others qs items c' position heap' rows) :
    ∃ c'' position' heap'' qs' rows', c'.pop position heap' = (items.head?, position', c'', heap'') ∧
      c.Pops heap others qs' items.tail c'' position' heap'' rows' := by
  obtain ⟨hs, hpassed, rfl, hrefs, hgone⟩ := h
  rcases hs.pop position with
    ⟨hrun, hpast⟩ | ⟨i, d, cs, t', later, hrun, hle, hbetween, hrow, hs', hcount, hgone'⟩
  · have hnil : ∀ i, rows i = [] := fun i => by
      rcases Nat.lt_or_ge i position with hi | hi
      · exact hpassed i hi
      · exact hpast i hi
    have hall : rows.all c'.table.bucketCount = [] :=
      List.flatMap_eq_nil_iff.mpr fun i _ => hnil i
    refine ⟨c', max position c'.table.bucketCount, heap', qs, rows, ?_, hs, fun i _ => hnil i, ?_,
      hrefs, hgone⟩
    · rw [pop, hrun, hall]
      rfl
    · rw [hall]
      rfl
  · have hi : i < c'.table.bucketCount := hs.lt_of_mem (c := d) (by simp [hrow])
    have hbefore : ∀ j < i, rows j = [] := fun j hj => by
      rcases Nat.lt_or_ge j position with hlt | hge
      · exact hpassed j hlt
      · exact hbetween j hge hj
    have hnone : rows.before i = [] :=
      List.flatMap_eq_nil_iff.mpr fun j hj => hbefore j (List.mem_range.mp hj)
    have hall : rows.all c'.table.bucketCount = d :: (cs ++ rows.after i c'.table.bucketCount) := by
      rw [rows.all_eq hi, hnone, hrow]
      rfl
    have hall' : (rows.put i cs).all t'.bucketCount = cs ++ rows.after i c'.table.bucketCount := by
      rw [hcount, rows.all_put hi, hnone]
      rfl
    refine ⟨{ c' with table := t' }, i, later, qs ++ [d.ref], rows.put i cs, ?_, hs', ?_, ?_, ?_,
      hgone.trans hgone'⟩
    · rw [pop, hrun, hall]
      rfl
    · intro j hj
      rw [rows.put_of_ne (Nat.ne_of_lt hj)]
      exact hbefore j hj
    · rw [hall, hall']
      rfl
    · rw [hrefs, hs.refs_eq, hs'.refs_eq, hall, hall']
      simp

theorem popIterator_tracks : popIterator.Tracks (c.PopsTo heap others) := by
  refine ⟨?_, ?_, ?_⟩
  · rintro items ⟨c', position, heap'⟩ ⟨qs, rows, h⟩
    rw [h.entries, List.length_map]
    exact h.stores.size_eq.trans (by rw [List.append_nil])
  · rintro items ⟨c', position, heap'⟩ ⟨qs, rows, h⟩
    obtain ⟨c'', position', heap'', qs', rows', hrun, -⟩ := h.next
    simp only [popIterator, hrun]
  · rintro items ⟨c', position, heap'⟩ ⟨qs, rows, h⟩
    obtain ⟨c'', position', heap'', qs', rows', hrun, h'⟩ := h.next
    refine ⟨qs', rows', ?_⟩
    simp only [popIterator, hrun]
    exact h'

end Keyed

end ArenaHash
