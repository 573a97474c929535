import ArenaHash.Proofs.Container.RepeatedKeys

/-!
# Multimaps as runs

A multimap is compared with the run of each key: its entries with the key, in order. They are next
to each other in one chain and the run is what is read there. `Run` makes the same calls on both;
between calls the container may be replaced by a copy, give up entries to an owning iterator, be
given another overflow allocator, and share the heap with anything else that happens.
-/

namespace ArenaHash

open Keyed (hasKey)

/-- In each row the cells of each key are next to each other. -/
def Rows.Clustered {K V : Type} [BEq K] (rows : Rows (K × V)) : Prop :=
  ∀ i k, Together (fun c : Cell (K × V) => hasKey k c.entry) (rows i)

namespace Rows

variable {K V : Type} [BEq K] {rows rows' : Rows (K × V)}

theorem clustered_nil : Clustered (fun _ => [] : Rows (K × V)) := fun _ _ => .of_none nofun

theorem Clustered.put (h : rows.Clustered) {i : Nat} {cs : List (Cell (K × V))}
    (hcs : ∀ k, Together (fun c : Cell (K × V) => hasKey k c.entry) cs) :
    (rows.put i cs).Clustered := by
  intro j k
  by_cases hj : j = i
  · subst hj
    rw [put_self]
    exact hcs k
  · rw [put_of_ne _ hj]
    exact h j k

/-- Only keys matter, and cells may go. -/
theorem Clustered.of_tags (h : rows.Clustered)
    (ht : ∀ i, ((rows' i).map Cell.tag).Sublist ((rows i).map Cell.tag)) : rows'.Clustered := by
  intro i k
  have htag : ∀ cs : List (Cell (K × V)),
      Together (fun tag : K × Option UInt64 => tag.1 == k) (cs.map Cell.tag) ↔
        Together (fun c : Cell (K × V) => hasKey k c.entry) cs := fun cs => together_map
  exact (htag _).mp (((htag _).mpr (h i k)).sublist (ht i))

end Rows

namespace Keyed

/-- The entries of a bucket, front to back. -/
def entriesIn {s : Table.Shape} {K V A S : Type} (c : Keyed s K V A S) (i : Nat) : List (K × V) :=
  (c.table.chain i).filterMap c.table.entryAt?

variable {s : Table.Shape} {K V A S : Type} [BEq K] [Allocator A] {f : S → K → UInt64}
  {c : Keyed s K V A S} {heap : Heap A} {rows rows' : Rows (K × V)} {others : List (Loan A)}

omit [BEq K] in
theorem Placed.entriesIn_eq (h : c.Placed f heap rows others) (i : Nat) :
    c.entriesIn i = (rows i).map Cell.entry := by
  rw [entriesIn, h.stores.chain_eq,
    h.stores.entries_eq fun cell hc => List.mem_append_left _ (h.stores.mem_all hc)]

variable (hf : Hashing.Faithful f) (h : c.Placed f heap rows others)
include hf h

theorem Placed.together_all (hcl : rows.Clustered) (k : K) :
    Together (fun cell : Cell (K × V) => hasKey k cell.entry) (rows.all c.table.bucketCount) := by
  have hi : c.bucketOf (.ofFun f) k < c.table.bucketCount := h.stores.bucketOf_lt _
  rw [rows.all_eq hi]
  exact (hcl _ k).around (h.unmatched_before hf) (h.unmatched_after hf)

/-- Growth keeps runs together: a new row is part of the list of all cells. -/
theorem Placed.clustered_regrouped (hcl : rows.Clustered) {count' : Nat}
    (hre : Rows.Regrouped (c.hasher (.ofFun f)) rows rows' c.table.bucketCount count') :
    rows'.Clustered := by
  rcases hre with ⟨rfl, -⟩ | rfl
  · exact hcl
  · exact fun i k => (h.together_all hf hcl k).sublist List.filter_sublist

/-- Growth keeps the order of the cells with a key. -/
theorem Placed.cells_regrouped {count' : Nat}
    (hre : Rows.Regrouped (c.hasher (.ofFun f)) rows rows' c.table.bucketCount count') (k : K) :
    (rows' ((f c.builder k).toNat % count')).filter (fun cell => hasKey k cell.entry) =
      (rows.all c.table.bucketCount).filter fun cell => hasKey k cell.entry := by
  rcases hre with ⟨rfl, rfl⟩ | rfl
  · exact (h.filter_all hf).symm
  · rw [Rows.group, List.filter_filter]
    apply List.filter_congr
    intro cell hc
    obtain ⟨j, -, hc⟩ := rows.mem_all.mp hc
    have hhash : cell.hashBy (c.hasher (.ofFun f)) = f c.builder cell.entry.1 :=
      h.placed.hashBy_eq (fun _ _ => rfl) hc
    cases hk : hasKey k cell.entry with
    | false => simp
    | true => simp [hhash, hf _ _ _ hk]

/-- Growth keeps the order in a run. -/
theorem Placed.filter_regrouped {count' : Nat}
    (hre : Rows.Regrouped (c.hasher (.ofFun f)) rows rows' c.table.bucketCount count') (k : K) :
    ((rows' ((f c.builder k).toNat % count')).map Cell.entry).filter (hasKey k) =
      c.toList.filter (hasKey k) := by
  rw [h.toList_eq, List.filter_map, List.filter_map]
  exact congrArg _ (h.cells_regrouped hf hre k)

/-- The first stretch of cells that a lookup stops at has all of them. -/
theorem Placed.stretch_eq (hcl : rows.Clustered) (k : K) :
    ((rows (c.bucketOf (.ofFun f) k)).dropWhile (!c.isFor (.ofFun f) k ·)).takeWhile
      (c.isFor (.ofFun f) k) =
        (rows (c.bucketOf (.ofFun f) k)).filter fun cell => hasKey k cell.entry := by
  have hmatch : ∀ cell ∈ rows (c.bucketOf (.ofFun f) k),
      c.isFor (.ofFun f) k cell = hasKey k cell.entry := fun cell hc => h.isFor_eq hf hc
  rw [← (hcl _ k).takeWhile_dropWhile, dropWhile_congr fun cell hc => by rw [hmatch cell hc]]
  exact takeWhile_congr fun cell hc => hmatch cell ((List.dropWhile_sublist _).mem hc)

theorem Placed.equalRun_eq (hcl : rows.Clustered) (k : K) :
    c.equalRun (.ofFun f) k = c.toList.filter (hasKey k) := by
  have hrun : c.table.equalRun (f c.builder k) (hasKey k) =
      (((rows (c.bucketOf (.ofFun f) k)).dropWhile (!c.isFor (.ofFun f) k ·)).takeWhile
        (c.isFor (.ofFun f) k)).map Cell.ref := h.stores.equalRun_eq _ _
  have hmem : ∀ cell ∈ (rows (c.bucketOf (.ofFun f) k)).filter fun cell => hasKey k cell.entry,
      cell ∈ rows.all c.table.bucketCount ++ [] := fun cell hc =>
    List.mem_append_left _ (h.stores.mem_all (List.mem_of_mem_filter hc))
  rw [h.stretch_eq hf hcl] at hrun
  rw [equalRun, Hashing.key_ofFun, hrun,
    h.stores.entries_eq hmem, h.filter_toList hf, List.filter_map]
  rfl

theorem Placed.runCursor_ahead (hcl : rows.Clustered) (k : K) :
    (c.runCursor (.ofFun f) k).Ahead c.table
      ((rows (c.bucketOf (.ofFun f) k)).filter fun cell => hasKey k cell.entry) := by
  rw [← h.stretch_eq hf hcl]
  exact h.stores.runAhead (f c.builder k) (hasKey k)

end Keyed

namespace Runs

/-- What a call on a multimap answers and does. -/
def step {K V ρ : Type} [BEq K] (denied : Option MemoryError) (order : List (K × V)) :
    Multimap.Call K V ρ → Runs K V → ρ × Runs K V
  | .insert k v, R =>
    match denied with
    | some e => (.error e, R)
    | none => (.ok (), R.change k (push (k, v)))
  | .count k, R => ((R k).length, R)
  | .equalRun k, R => (R k, R)
  | .eraseAll k, R => ((R k).length, R.change k fun _ => [])
  | .common call, R => common order R call

end Runs

namespace Multimap

variable {s : Table.Shape} {K V A S : Type} [BEq K] [Allocator A] {f : S → K → UInt64}
  {m : Multimap s K V A S} {heap : Heap A} {R : Runs K V}

/-- The runs of the multimap are `R`, each in one piece. -/
structure Models (f : S → K → UInt64) (m : Multimap s K V A S) (heap : Heap A) (R : Runs K V) :
    Prop where
  placed : ∃ rows others, m.Placed f heap rows others ∧ rows.Clustered
  runs : Runs.ofList m.toList = R

/-- Cells that are together stay together when some go and values change. -/
theorem Models.of_becomes {m' : Multimap s K V A S} {heap' : Heap A} {rows rows' : Rows (K × V)}
    {others : List (Loan A)} {l : List (K × V)} (hcl : rows.Clustered)
    (hc : m.Becomes f rows others l m' heap' rows') : Models f m' heap' (Runs.ofList l) :=
  ⟨⟨rows', others, hc.placed, hcl.of_tags hc.tags⟩, congrArg Runs.ofList hc.toList⟩

/-- What a call comes to, against what is expected of it for a reason to deny entries. -/
def Agrees {ρ : Type} (f : S → K → UInt64) (m : Multimap s K V A S) (heap : Heap A)
    (expected : Option MemoryError → ρ × Runs K V) (out : ρ × Multimap s K V A S × Heap A) :
    Prop :=
  out.1 = (expected (s.denial m.size (heap.refusalSince out.2.2))).1 ∧
    Models f out.2.1 out.2.2 (expected (s.denial m.size (heap.refusalSince out.2.2))).2

variable [EquivBEq K]

/-- A new cell beside the first one with its key. -/
theorem clustered_besideFirst {rows : Rows (K × V)} {cell : Cell (K × V)} {k : K} (i : Nat)
    (hcl : rows.Clustered) (hk : hasKey k cell.entry) :
    (rows.put i (besideFirst (fun c : Cell (K × V) => hasKey k c.entry) cell
      (rows i))).Clustered := by
  refine hcl.put fun k' => (hcl i k').besideFirst ?_ ?_
  · intro hnone hk' d hd
    rw [Runs.hasKey_congr (show k' == k from BEq.trans (BEq.symm hk') hk)]
    exact hnone d hd
  · intro d hd hdk
    exact BEq.congr_left (BEq.trans hk (BEq.symm hdk))

/-- Beside the first cell with its key a new cell comes second in its run. -/
theorem filter_put_besideFirst (rows : Rows (K × V)) {cell : Cell (K × V)} {k : K} {i : Nat}
    (hk : hasKey k cell.entry) (k' : K) {j : Nat} (hj : k' == k → j = i) :
    (((rows.put i (besideFirst (fun c : Cell (K × V) => hasKey k c.entry) cell
      (rows i))) j).map Cell.entry).filter (hasKey k') =
      if k' == k then push cell.entry (((rows j).map Cell.entry).filter (hasKey k'))
      else ((rows j).map Cell.entry).filter (hasKey k') := by
  simp only [List.filter_map]
  split
  · next hkk =>
    rw [hj hkk, Rows.put_self, Runs.hasKey_congr hkk]
    have hfilter := filter_besideFirst (p := fun c : Cell (K × V) => hasKey k c.entry) hk (rows i)
    exact (congrArg _ hfilter).trans (map_push _ _ _)
  · next hkk =>
    by_cases hij : j = i
    · have hne : (!hasKey k' cell.entry) = true := by
        rw [Bool.not_eq_true_eq_eq_false, ← Bool.not_eq_true]
        exact fun hk' => hkk (BEq.trans (BEq.symm hk') hk)
      rw [hij, Rows.put_self]
      exact congrArg _ (filter_besideFirst_of_not
        (q := fun c : Cell (K × V) => hasKey k' c.entry) hne (rows i))
    · rw [rows.put_of_ne hij]

variable (hf : Hashing.Faithful f) (h : Models f m heap R)
include hf h

theorem agrees_insert (k : K) (v : V) (order : List (K × V)) :
    Agrees f m heap (fun denied => Runs.step denied order (.insert k v) R)
      (insert (.ofFun f) m k v heap) := by
  obtain ⟨rows, others, hp, hcl⟩ := h.placed
  have hi := hp.stores.insertBeside (f m.builder k) (k, v) (hasKey k) (m.hasher (.ofFun f))
  have hsize : m.table.size = m.size := rfl
  unfold Agrees insert
  rcases hr : m.table.insertBeside ((Hashing.ofFun f).key m.builder k) (k, v) (hasKey k)
    (m.hasher (.ofFun f)) heap with ⟨result, t', heap'⟩
  rw [Hashing.key_ofFun] at hr
  rw [hr] at hi
  cases hi with
  | @denied rows' e t' heap' regrouped stores r continues denied =>
    have hp' : Keyed.Placed f { m with table := t' } heap' rows' others :=
      ⟨stores, hp.placed.regrouped (fun _ _ => rfl) regrouped⟩
    have hcl' := hp.clustered_regrouped hf hcl regrouped
    simp only [continues.refusalSince, ← hsize, denied, Runs.step, Except.map, true_and]
    refine ⟨⟨_, _, hp', hcl'⟩, ?_⟩
    rw [← h.runs]
    funext k'
    exact (hp'.filter_toList hf).trans (hp.filter_regrouped hf regrouped k')
  | @done rows' q t' heap' regrouped stores continues granted =>
    have hplaced := hp.placed.regrouped (fun _ _ => rfl) regrouped
    have hcl' := hp.clustered_regrouped hf hcl regrouped
    have hk : hasKey k (s.cell q (f m.builder k) (k, v)).entry := BEq.rfl
    rw [besideFirst_congr fun d hd => hplaced.isMatch_eq hf hd] at stores
    have hp' : Keyed.Placed f { m with table := t' } heap' _ others :=
      ⟨stores, hplaced.put_new q (k, v) fun c hc => mem_besideFirst hc⟩
    simp only [continues.refusalSince, ← hsize, granted, Runs.step, Except.map, true_and]
    refine ⟨⟨_, _, hp', clustered_besideFirst _ hcl' hk⟩, ?_⟩
    rw [← h.runs]
    funext k'
    have hbucket : k' == k → (f m.builder k').toNat % t'.bucketCount =
        t'.bucketOf (f m.builder k) := fun hkk => by rw [hf _ _ _ hkk]; rfl
    have hrun := filter_put_besideFirst rows' hk k' hbucket
    rw [hp.filter_regrouped hf regrouped k'] at hrun
    exact (hp'.filter_toList hf).trans hrun

theorem agrees_eraseAll (k : K) :
    (m.eraseAll (.ofFun f) k heap).1 = (R k).length ∧
      Models f (m.eraseAll (.ofFun f) k heap).2.1 (m.eraseAll (.ofFun f) k heap).2.2
        (R.change k fun _ => []) := by
  obtain ⟨rows, others, hp, hcl⟩ := h.placed
  obtain ⟨m', heap', rows', hrun, hc⟩ := hp.becomes_eraseAll hf k
  rw [hrun, ← h.runs, ← Runs.ofList_eraseAll]
  exact ⟨rfl, .of_becomes hcl hc⟩

theorem agrees_common (denied : Option MemoryError) {ρ : Type} (call : Keyed.Call K V ρ) :
    (Keyed.perform (.ofFun f) m heap call).1 =
        (Runs.step denied m.toList (.common call) R).1 ∧
      Models f (Keyed.perform (.ofFun f) m heap call).2.1
        (Keyed.perform (.ofFun f) m heap call).2.2
        (Runs.step denied m.toList (.common call) R).2 := by
  obtain ⟨rows, others, hp, hcl⟩ := h.placed
  obtain ⟨m', heap', rows', hrun, hc⟩ := hp.perform hf call
  rw [hrun, Runs.step, ← h.runs, Runs.common_ofList]
  exact ⟨rfl, .of_becomes hcl hc⟩

theorem agrees_perform {ρ : Type} (call : Call K V ρ) :
    Agrees f m heap (fun denied => Runs.step denied m.toList call R)
      (perform (.ofFun f) m heap call) := by
  obtain ⟨rows, others, hp, hcl⟩ := h.placed
  cases call with
  | insert k v => exact agrees_insert hf h k v m.toList
  | count k =>
    refine ⟨?_, h⟩
    show _ = (R k).length
    rw [← h.runs]
    exact hp.count_eq hf k
  | equalRun k =>
    refine ⟨?_, h⟩
    show _ = R k
    rw [← h.runs]
    exact hp.equalRun_eq hf hcl k
  | eraseAll k => exact agrees_eraseAll hf h k
  | common call => exact agrees_common hf h _ call

omit h in
/-- An owning iterator takes out the head of a run. -/
theorem Models.pop (h : Models f m heap R) {m' : Multimap s K V A S} {heap' : Heap A}
    {position i : Nat} {e : K × V} (hr : m.pop position heap = (some e, i, m', heap')) :
    Models f m' heap' (R.change e.1 List.tail) := by
  obtain ⟨rows, others, hp, hcl⟩ := h.placed
  obtain ⟨left, right, rows', hl, hleft, hc⟩ := hp.becomes_pop hf hr
  rw [← h.runs, hl, ← Runs.ofList_erase BEq.rfl hleft]
  exact .of_becomes hcl hc

omit hf h

omit [EquivBEq K] in
theorem Models.copy (h : Models f m heap R) {m' : Multimap s K V A S} {heap' : Heap A}
    (hr : m.copy heap = (.ok m', heap')) : Models f m' heap' R := by
  obtain ⟨rows, others, hp, hcl⟩ := h.placed
  obtain ⟨rows', hc⟩ := hp.becomes_copy hr
  exact h.runs ▸ .of_becomes hcl hc

omit [EquivBEq K] in
theorem Models.setDelegate (h : Models f m heap R) (delegate : A) :
    Models f (m.setDelegate delegate).2 heap R := by
  obtain ⟨rows, others, hp, hcl⟩ := h.placed
  exact h.runs ▸ .of_becomes hcl (hp.becomes_setDelegate delegate)

omit [EquivBEq K] in
/-- The heap may be any that lends the container what it holds. -/
theorem Models.elsewhere (h : Models f m heap R) {heap' : Heap A} {others' : List (Loan A)}
    (hl : heap'.Lends (m.table.loans m.table.refs ++ others')) : Models f m heap' R := by
  obtain ⟨rows, others, hp, hcl⟩ := h.placed
  refine ⟨⟨rows, others', ⟨hp.stores.rebase ?_, hp.placed⟩, hcl⟩, h.runs⟩
  rwa [List.append_nil, ← hp.stores.refs_eq]

omit [EquivBEq K] in
theorem models_new {others : List (Loan A)} (builder : S) (delegate : A)
    (hl : heap.Lends others) :
    Models f (.new builder delegate : Multimap s K V A S) heap fun _ => [] := by
  have hp : (Keyed.new builder delegate : Multimap s K V A S).Placed f heap _ others :=
    Keyed.placed_new builder delegate hl
  refine ⟨⟨_, _, hp, Rows.clustered_nil⟩, ?_⟩
  rw [hp.toList_eq]
  funext k
  simp [Runs.ofList]

/-! ## Runs of calls -/

/-- What the reference answers and does, if the multimap is asked next. -/
def expected {ρ : Type} (f : S → K → UInt64) (m : Multimap s K V A S) (heap : Heap A)
    (call : Call K V ρ) (R : Runs K V) : ρ × Runs K V :=
  let later := (perform (.ofFun f) m heap call).2.2
  Runs.step (s.denial m.size (heap.refusalSince later)) m.toList call R

inductive Run (f : S → K → UInt64) : Multimap s K V A S → Heap A → Runs K V → Prop where
  | start {heap : Heap A} {others : List (Loan A)} (builder : S) (delegate : A)
    (hl : heap.Lends others) : Run f (.new builder delegate) heap fun _ => []
  | call {m : Multimap s K V A S} {heap : Heap A} {R : Runs K V} {ρ : Type} (h : Run f m heap R)
    (call : Call K V ρ) :
    Run f (perform (.ofFun f) m heap call).2.1 (perform (.ofFun f) m heap call).2.2
      (expected f m heap call R).2
  | copy {m m' : Multimap s K V A S} {heap heap' : Heap A} {R : Runs K V} (h : Run f m heap R)
    (hr : m.copy heap = (.ok m', heap')) : Run f m' heap' R
  | pop {m m' : Multimap s K V A S} {heap heap' : Heap A} {R : Runs K V} {position i : Nat}
    {e : K × V} (h : Run f m heap R) (hr : m.pop position heap = (some e, i, m', heap')) :
    Run f m' heap' (R.change e.1 List.tail)
  | setDelegate {m : Multimap s K V A S} {heap : Heap A} {R : Runs K V} (h : Run f m heap R)
    (delegate : A) : Run f (m.setDelegate delegate).2 heap R
  | elsewhere {m : Multimap s K V A S} {heap heap' : Heap A} {R : Runs K V}
    {others : List (Loan A)} (h : Run f m heap R)
    (hl : heap'.Lends (m.table.loans m.table.refs ++ others)) : Run f m heap' R

theorem Run.models (hf : Hashing.Faithful f) (h : Run f m heap R) : Models f m heap R := by
  induction h with
  | start builder delegate hl => exact models_new builder delegate hl
  | call _ call ih => exact (agrees_perform hf ih call).2
  | copy _ hr ih => exact ih.copy hr
  | pop _ hr ih => exact ih.pop hf hr
  | setDelegate _ delegate ih => exact ih.setDelegate delegate
  | elsewhere _ hl ih => exact ih.elsewhere hl

/-- Between calls, a run may go through a list of insertions up to the first that fails. -/
theorem Run.insertMany (hf : Hashing.Faithful f) (h : Run f m heap R) (items : List (K × V)) :
    ∃ done rest, items = done ++ rest ∧
      Run f (Keyed.insertMany (insertion (.ofFun f)) m items heap).2.1
        (Keyed.insertMany (insertion (.ofFun f)) m items heap).2.2
        (done.foldl (fun R e => R.change e.1 (push e)) R) ∧
      ((Keyed.insertMany (insertion (.ofFun f)) m items heap).1 = .ok () → rest = []) := by
  refine Keyed.insertMany_track (P := Run f) (fun {c heap R} e h result c' heap' hi => ?_) items h
  obtain ⟨hanswer, -⟩ := agrees_perform hf (h.models hf) (.insert e.1 e.2)
  have hrun := h.call (.insert e.1 e.2)
  have hi : insert (.ofFun f) c e.1 e.2 heap = (result, c', heap') := hi
  simp only [expected, perform, hi, Runs.step] at hanswer hrun
  cases hd : s.denial c.size (heap.refusalSince heap') with
  | none =>
    rw [hd] at hanswer hrun
    exact .inl ⟨hanswer, hrun⟩
  | some e =>
    rw [hd] at hanswer hrun
    exact .inr ⟨⟨e, hanswer⟩, hrun⟩

/-! ## Reading runs -/

/-- Where the entries with a key are, and what each way of reading them shows. -/
structure Shows (f : S → K → UInt64) (m : Multimap s K V A S) (k : K) (run : List (K × V)) :
    Prop where
  /-- They are one stretch of the chain of the key's bucket. -/
  stretch : ∃ before after, m.entriesIn (m.bucketOf (.ofFun f) k) = before ++ run ++ after ∧
    ∀ e ∈ before ++ after, !hasKey k e
  hasKey : ∀ e ∈ run, hasKey k e
  elsewhere : ∀ i, i ≠ m.bucketOf (.ofFun f) k → ∀ e ∈ m.entriesIn i, !Keyed.hasKey k e
  count : m.count (.ofFun f) k = run.length
  remaining : (m.runCursor (.ofFun f) k).remaining = run.length
  walkRun : ∀ limit, m.walkRun limit (m.runCursor (.ofFun f) k) = run.take limit
  equalRun : m.equalRun (.ofFun f) k = run
  getAll : getAll (.ofFun f) m k = run.map Prod.snd
  walk : (m.walk m.size m.cursor).filter (Keyed.hasKey k) = run
  get? : m.get? (.ofFun f) k = run.head?.map Prod.snd
  contains : m.contains (.ofFun f) k = !run.isEmpty

theorem Models.shows (hf : Hashing.Faithful f) (h : Models f m heap R) (k : K) :
    m.Shows f k (R k) := by
  obtain ⟨rows, others, hp, hcl⟩ := h.placed
  have hrun : R k = m.toList.filter (hasKey k) := by
    rw [← h.runs]
    rfl
  have hrow : R k = ((rows (m.bucketOf (.ofFun f) k)).filter fun cell =>
      hasKey k cell.entry).map Cell.entry := by
    rw [hrun, hp.filter_toList hf, List.filter_map]
    rfl
  have hahead := hp.runCursor_ahead hf hcl k
  have hequal : m.equalRun (.ofFun f) k = R k := by rw [hrun, hp.equalRun_eq hf hcl]
  refine {
    stretch := ?_, hasKey := ?_, elsewhere := ?_, count := ?_, remaining := ?_, walkRun := ?_,
    equalRun := hequal, getAll := ?_, walk := ?_, get? := ?_, contains := ?_ }
  · obtain ⟨left, right, heq, hnone⟩ := (hcl (m.bucketOf (.ofFun f) k) k).stretch
    refine ⟨left.map Cell.entry, right.map Cell.entry, ?_, ?_⟩
    · rw [hp.entriesIn_eq, hrow, ← List.map_append, ← List.map_append, ← heq]
    · rw [← List.map_append]
      exact List.forall_mem_map.mpr hnone
  · rw [hrun]
    exact fun e he => List.of_mem_filter he
  · intro i hi
    rw [hp.entriesIn_eq]
    exact List.forall_mem_map.mpr (hp.unmatched hf hi)
  · rw [hrun]
    exact hp.count_eq hf k
  · rw [hahead.1, hrow, List.length_map]
  · intro limit
    rw [hrow]
    exact Keyed.walkRun_eq hp.stores
      (fun cell hc => hp.stores.mem_all (List.mem_of_mem_filter hc)) hahead
  · rw [Multimap.getAll, hequal]
  · rw [hp.walk_eq, hrun]
  · exact (agrees_common hf h none (.get k)).1
  · exact (agrees_common hf h none (.contains k)).1

end Multimap

end ArenaHash
