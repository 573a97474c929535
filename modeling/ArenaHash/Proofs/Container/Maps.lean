import ArenaHash.Proofs.Container.UniqueKeys

/-!
# Maps as association lists

A map is compared with a list of entries with unequal keys. The two agree up to order, and a
visitor of the list sees the entries in the order of the map. `Reference.step` says what each call
answers and does; memory enters only as the reason why a new entry is denied, if it is.
`Map.Run` makes the same calls on both, from an empty map on, whatever the overflow allocator
serves and refuses.
-/

namespace ArenaHash

open Keyed (hasKey)

namespace Reference

variable {K V ρ : Type}

/-- Adds an entry unless it is denied. -/
def add (denied : Option MemoryError) (k : K) (v : V) (answer : ρ) (ref : List (K × V)) :
    Except MemoryError ρ × List (K × V) :=
  match denied with
  | some e => (.error e, ref)
  | none => (.ok answer, (k, v) :: ref)

/-- What a call on a map answers and does; `order` is the order in which a visitor comes by. -/
def step [BEq K] (denied : Option MemoryError) (order : List (K × V)) :
    Map.Call K V ρ → List (K × V) → ρ × List (K × V)
  | .insert k v, ref =>
    match ref.find? (hasKey k) with
    | some (_, old) => (.ok (some old), changeFirst (hasKey k) (fun e => (e.1, v)) ref)
    | none => add denied k v none ref
  | .insertIfNew k v g, ref =>
    match ref.find? (hasKey k) with
    | some (_, old) => (.ok (some old, false), changeFirst (hasKey k) (fun e => (e.1, g e.2)) ref)
    | none => add denied k (g v) (some v, true) ref
  | .replace k v, ref =>
    match ref.find? (hasKey k) with
    | some old => (.ok (some old), changeFirst (hasKey k) (fun _ => (k, v)) ref)
    | none => add denied k v none ref
  | .count k, ref => ((ref.any (hasKey k)).toNat, ref)
  | .common call, ref => call.onList (if call.visits then order else ref)

end Reference

namespace Map

variable {s : Table.Shape} {K V A S : Type} [BEq K] [Allocator A] {f : S → K → UInt64}
  {m : Map s K V A S} {heap : Heap A} {ref : List (K × V)} {k : K}

/-- The map has the entries of the reference. -/
structure Models (f : S → K → UInt64) (m : Map s K V A S) (heap : Heap A) (ref : List (K × V)) :
    Prop where
  placed : ∃ rows others, m.Placed f heap rows others
  perm : m.toList.Perm ref
  unique : UniqueKeys ref

/-- What a call comes to, against what is expected of it for a reason to deny entries. -/
def Agrees {ρ : Type} (f : S → K → UInt64) (heap : Heap A) (ref : List (K × V))
    (expected : Option MemoryError → ρ × List (K × V)) (out : ρ × Map s K V A S × Heap A) : Prop :=
  out.1 = (expected (s.denial ref.length (heap.refusalSince out.2.2))).1 ∧
    Models f out.2.1 out.2.2 (expected (s.denial ref.length (heap.refusalSince out.2.2))).2

/-- What adding an entry comes to. -/
inductive Added (f : S → K → UInt64) (heap : Heap A) (ref : List (K × V)) (k : K) (v : V) :
    Except MemoryError Ref × Map s K V A S × Heap A → Prop where
  | denied {e : MemoryError} {m' : Map s K V A S} {heap' : Heap A}
    (denied : s.denial ref.length (heap.refusalSince heap') = some e)
    (models : Models f m' heap' ref) : Added f heap ref k v (.error e, m', heap')
  | granted {q : Ref} {m' : Map s K V A S} {heap' : Heap A}
    (granted : s.denial ref.length (heap.refusalSince heap') = none)
    (models : Models f m' heap' ((k, v) :: ref)) (found : m'.find? (.ofFun f) k = some q) :
    Added f heap ref k v (.ok q, m', heap')

theorem models_new (builder : S) (delegate : A) (serves : List (Event A) → A → Layout → Bool) :
    Models f (.new builder delegate : Map s K V A S) { serves } [] where
  placed := ⟨_, _, Keyed.placed_new builder delegate (Heap.lends_nil serves)⟩
  perm := by
    have hp := Keyed.placed_new (s := s) (f := f) (V := V) builder delegate
      (Heap.lends_nil serves)
    rw [hp.toList_eq]
    simp
  unique := List.Pairwise.nil

namespace Models

variable (h : Models f m heap ref)
include h

theorem size : m.size = ref.length := by
  obtain ⟨rows, others, hp⟩ := h.placed
  rw [hp.size_eq, h.perm.length_eq]

variable [EquivBEq K]

theorem add (hnone : ref.find? (hasKey k) = none) (v : V) :
    Added f heap ref k v (Map.add (.ofFun f) m k v heap) := by
  obtain ⟨rows, others, hp⟩ := h.placed
  obtain ⟨result, t', heap', hadd, hi⟩ := add_inserted (.ofFun f) hp.stores k v
  rw [hadd]
  have hsize : m.table.size = ref.length := h.size
  have hperm : ∀ {rows' : Rows (K × V)} {count' : Nat}, 2 ≤ count' →
      Rows.Regrouped (m.hasher (.ofFun f)) rows rows' m.table.bucketCount count' →
        ((rows'.all count').map Cell.entry).Perm ref := fun htwo hre =>
    ((hre.perm (Nat.lt_of_lt_of_le Nat.zero_lt_two htwo)).map _).trans (hp.toList_eq ▸ h.perm)
  cases hi with
  | @denied rows' e t' heap' regrouped stores r continues denied =>
    have hplaced := hp.placed.regrouped (fun _ _ => rfl) regrouped
    have hp' : Keyed.Placed f { m with table := t' } heap' rows' others := ⟨stores, hplaced⟩
    refine .denied ?_ ⟨⟨_, _, hp'⟩, ?_, h.unique⟩
    · rw [continues.refusalSince, ← hsize]
      exact denied
    · rw [hp'.toList_eq]
      exact hperm stores.two_le_bucketCount regrouped
  | @done rows' q t' heap' regrouped stores continues granted =>
    have hplaced := hp.placed.regrouped (fun _ _ => rfl) regrouped
    have hp' : Keyed.Placed f { m with table := t' } heap' _ others :=
      ⟨stores, hplaced.put_new q (k, v) fun c hc => List.mem_cons.mp hc⟩
    refine .granted ?_ ⟨⟨_, _, hp'⟩, ?_, h.unique.cons hnone v⟩ ?_
    · rw [continues.refusalSince, ← hsize]
      exact granted
    · have hput := rows'.all_put_cons (stores.bucketOf_lt (f m.builder k))
        (s.cell q (f m.builder k) (k, v))
      rw [hp'.toList_eq]
      exact (hput.map Cell.entry).trans
        ((hperm stores.two_le_bucketCount regrouped).cons (k, v))
    · have hfind := stores.find?_eq (f m.builder k) (hasKey k)
      have hmatch : Cell.isMatch (f m.builder k) (hasKey k) (s.cell q (f m.builder k) (k, v)) :=
        (s.isMatch_cell q _ (k, v) (hasKey k)).trans BEq.rfl
      rw [Hashing.ofFun, Rows.put_self, List.find?_cons_of_pos hmatch] at hfind
      exact hfind

variable (hf : Hashing.Faithful f)
include hf

/-- A lookup misses in both, or finds the same entry. -/
theorem hit_or_miss (k : K) :
    ref.find? (hasKey k) = none ∧ m.find? (.ofFun f) k = none ∧ m.locate? (.ofFun f) k = none ∨
      ∃ rows others pre cell post, m.Placed f heap rows others ∧ m.Hit f rows k pre cell post ∧
        ref.find? (hasKey k) = some cell.entry := by
  obtain ⟨rows, others, hp⟩ := h.placed
  have hfind := h.unique.find?_perm h.perm.symm k
  rcases hp.hit_or_miss hf k with ⟨hmiss, hm, hl⟩ | ⟨pre, cell, post, hit⟩
  · refine .inl ⟨?_, hm, hl⟩
    rw [hfind]
    exact List.find?_eq_none.mpr fun e he => by simpa using hmiss e he
  · exact .inr ⟨rows, others, pre, cell, post, hp, hit, by rw [hfind, hit.find?_toList hp]⟩

/-- A present entry is overwritten in both. -/
theorem set {rows : Rows (K × V)} {others : List (Loan A)} {pre post : List (Cell (K × V))}
    {cell : Cell (K × V)} (hp : m.Placed f heap rows others) (hit : m.Hit f rows k pre cell post)
    {g : K × V → K × V} (hg : ∀ e, hasKey k e → (g e).1 == k) :
    Models f { m with table := m.table.setEntry cell.ref (g cell.entry) } heap
      (changeFirst (hasKey k) g ref) := by
  obtain ⟨hp', hl⟩ := hit.set hp hf (g cell.entry) (hg cell.entry hit.hasKey)
  refine ⟨⟨_, _, hp'⟩, ?_, h.unique.changeFirst k hg⟩
  have hchanged := (h.unique.perm h.perm.symm).changeFirst_perm h.perm k g
  rw [hit.toList_eq hp, changeFirst_of_first hit.hasKey hit.left_unmatched] at hchanged
  rw [hl]
  exact hchanged

end Models

/-! ## Calls -/

theorem Added.agrees {result : Except MemoryError Ref} {m' : Map s K V A S} {heap' : Heap A}
    {v : V} (hadd : Added f heap ref k v (result, m', heap')) {ρ : Type} (answer : ρ) :
    Agrees f heap ref (fun denied => Reference.add denied k v answer ref)
      (result.map fun _ => answer, m', heap') := by
  unfold Agrees
  cases hadd with
  | denied denied models =>
    simp only [denied, Reference.add]
    exact ⟨rfl, models⟩
  | granted granted models =>
    simp only [granted, Reference.add]
    exact ⟨rfl, models⟩

section Calls

variable [EquivBEq K] (hf : Hashing.Faithful f) (h : Models f m heap ref)
include hf h

theorem agrees_insert (order : List (K × V)) (k : K) (v : V) :
    Agrees f heap ref (fun denied => Reference.step denied order (.insert k v) ref)
      (insert (.ofFun f) m k v heap) := by
  unfold insert
  rcases h.hit_or_miss hf k with ⟨hnone, -, hl⟩ | ⟨rows, others, pre, cell, post, hp, hit, hfind⟩
  · have hadd := h.add hnone v
    simp only [hl, Reference.step, hnone]
    exact hadd.agrees none
  · simp only [hit.locate?, Reference.step, hfind]
    exact ⟨rfl, h.set hf hp hit (g := fun e => (e.1, v)) fun e he => he⟩

theorem agrees_replace (order : List (K × V)) (k : K) (v : V) :
    Agrees f heap ref (fun denied => Reference.step denied order (.replace k v) ref)
      (replace (.ofFun f) m k v heap) := by
  unfold replace
  rcases h.hit_or_miss hf k with ⟨hnone, -, hl⟩ | ⟨rows, others, pre, cell, post, hp, hit, hfind⟩
  · have hadd := h.add hnone v
    simp only [hl, Reference.step, hnone]
    exact hadd.agrees none
  · simp only [hit.locate?, Reference.step, hfind]
    exact ⟨rfl, h.set hf hp hit (g := fun _ => (k, v)) fun _ _ => BEq.rfl⟩

/-- A value is changed where a lookup finds it. -/
theorem modifyAt_of_find? {q : Ref} (hq : m.find? (.ofFun f) k = some q) {stored : K} {old : V}
    (hfind : ref.find? (hasKey k) = some (stored, old)) (g : V → V) :
    ∃ m', m.modifyAt q g = (some old, m') ∧
      Models f m' heap (changeFirst (hasKey k) (fun e => (e.1, g e.2)) ref) := by
  rcases h.hit_or_miss hf k with ⟨hnone, -⟩ | ⟨rows, others, pre, cell, post, hp, hit, hcell⟩
  · rw [hnone] at hfind
    cases hfind
  · obtain rfl : cell.ref = q := Option.some.inj (hit.find?.symm.trans hq)
    have hentry : cell.entry = (stored, old) := Option.some.inj (hcell.symm.trans hfind)
    have hc : cell ∈ rows (m.bucketOf (.ofFun f) k) := by simp [hit.row]
    refine ⟨_, by rw [Keyed.modifyAt_eq hp.stores hc, hentry], ?_⟩
    have hset := h.set hf hp hit (g := fun e => (e.1, g e.2)) fun e he => he
    rw [hentry] at hset
    exact hset

theorem agrees_insertIfNew (order : List (K × V)) (k : K) (v : V) (g : V → V) :
    Agrees f heap ref (fun denied => Reference.step denied order (.insertIfNew k v g) ref)
      (perform (.ofFun f) m heap (.insertIfNew k v g)) := by
  unfold perform insertIfNew
  rcases h.hit_or_miss hf k with ⟨hnone, hm, -⟩ | ⟨rows, others, pre, cell, post, hp, hit, hfind⟩
  · have hadd := h.add hnone v
    rcases hr : Map.add (.ofFun f) m k v heap with ⟨result, m', heap'⟩
    rw [hr] at hadd
    simp only [hm, hr, Reference.step, hnone]
    cases hadd with
    | denied denied models =>
      unfold Agrees
      simp only [Except.map, denied, Reference.add, true_and]
      exact models
    | @granted q m' heap' granted models found =>
      have hnew : ((k, v) :: ref).find? (hasKey k) = some (k, v) :=
        List.find?_cons_of_pos BEq.rfl
      obtain ⟨m'', hmod, models'⟩ := modifyAt_of_find? hf models found hnew g
      unfold Agrees
      simp only [Except.map, hmod, granted, Reference.add, true_and]
      rwa [changeFirst, if_pos (show hasKey k (k, v) = true from BEq.rfl)] at models'
  · obtain ⟨m', hmod, models'⟩ := modifyAt_of_find? hf h hit.find? hfind g
    unfold Agrees
    simp only [hit.find?, hmod, Reference.step, hfind, true_and]
    exact models'

theorem agrees_common {ρ : Type} (call : Keyed.Call K V ρ) :
    (Keyed.perform (.ofFun f) m heap call).1 =
        (call.onList (if call.visits then m.toList else ref)).1 ∧
      Models f (Keyed.perform (.ofFun f) m heap call).2.1
        (Keyed.perform (.ofFun f) m heap call).2.2
        (call.onList (if call.visits then m.toList else ref)).2 := by
  obtain ⟨rows, others, hp⟩ := h.placed
  obtain ⟨m', heap', rows', hrun, hc⟩ := hp.perform hf call
  have hunique := h.unique.perm h.perm.symm
  have hplaced : ∃ rows others, m'.Placed f heap' rows others := ⟨_, _, hc.placed⟩
  rw [hrun]
  cases hv : call.visits with
  | true =>
    refine ⟨rfl, hplaced, .of_eq hc.toList, hunique.sublist (call.keys_onList _)⟩
  | false =>
    obtain ⟨hanswer, hperm⟩ := call.onList_perm hv hunique h.perm
    refine ⟨hanswer, hplaced, hc.toList ▸ hperm, h.unique.sublist (call.keys_onList _)⟩

/-- A call answers what the reference answers and leaves the entries that the reference leaves. -/
theorem agrees_perform {ρ : Type} (call : Call K V ρ) :
    Agrees f heap ref (fun denied => Reference.step denied m.toList call ref)
      (perform (.ofFun f) m heap call) := by
  cases call with
  | insert k v => exact agrees_insert hf h m.toList k v
  | insertIfNew k v g => exact agrees_insertIfNew hf h m.toList k v g
  | replace k v => exact agrees_replace hf h m.toList k v
  | count k =>
    obtain ⟨hanswer, models⟩ := agrees_common hf h (.contains k)
    exact ⟨congrArg Bool.toNat hanswer, models⟩
  | common call => exact agrees_common hf h call

end Calls

/-! ## Runs -/

/-- What the reference answers and does, if the map is asked next. -/
def expected {ρ : Type} (f : S → K → UInt64) (m : Map s K V A S) (heap : Heap A)
    (call : Call K V ρ) (ref : List (K × V)) : ρ × List (K × V) :=
  let later := (perform (.ofFun f) m heap call).2.2
  Reference.step (s.denial ref.length (heap.refusalSince later)) m.toList call ref

inductive Run (f : S → K → UInt64) : Map s K V A S → Heap A → List (K × V) → Prop where
  | start (builder : S) (delegate : A) (serves : List (Event A) → A → Layout → Bool) :
    Run f (.new builder delegate) { serves } []
  | call {m : Map s K V A S} {heap : Heap A} {ref : List (K × V)} {ρ : Type}
    (h : Run f m heap ref) (call : Call K V ρ) :
    Run f (perform (.ofFun f) m heap call).2.1 (perform (.ofFun f) m heap call).2.2
      (expected f m heap call ref).2

theorem Run.models [EquivBEq K] (hf : Hashing.Faithful f) (h : Run f m heap ref) :
    Models f m heap ref := by
  induction h with
  | start builder delegate serves => exact models_new builder delegate serves
  | call _ call ih => exact (agrees_perform hf ih call).2

theorem Models.walk_eq (h : Models f m heap ref) : m.walk m.size m.cursor = m.toList := by
  obtain ⟨rows, others, hp⟩ := h.placed
  exact hp.walk_eq

end Map

end ArenaHash
