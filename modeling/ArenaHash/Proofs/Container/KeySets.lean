import ArenaHash.Memory.Lender
import ArenaHash.Proofs.Container.Maps

/-!
# Key sets as lists of keys

A key set is a map without values, and the list it is compared with is that of the map without
values. The last theorem is about both: maps and key sets answer as the lists do.
-/

namespace ArenaHash

open Keyed (hasKey)

namespace KeySet

inductive Call (K : Type) : Type → Type 1 where
  | insert (k : K) : Call K (Except MemoryError Bool)
  | replace (k : K) : Call K (Except MemoryError (Option K))
  | get (k : K) : Call K (Option K)
  | contains (k : K) : Call K Bool
  | count (k : K) : Call K Nat
  | take (k : K) : Call K (Option K)
  | filter {σ : Type} (keep : σ → K → Bool × σ) (state : σ) : Call K σ
  | clear : Call K Unit
  | renew : Call K Unit
  | abandon : Call K Unit
  | setMaxLoad (maxLoad : Binary32) : Call K Unit

/-- A filter of keys as one of entries. -/
def keepKey {K σ : Type} (keep : σ → K → Bool × σ) (state : σ) (k : K) (_ : Unit) :
    Bool × Unit × σ :=
  let (kept, state) := keep state k
  (kept, (), state)

def perform {s : Table.Shape} {K A S : Type} [BEq K] [Allocator A] (H : Hashing S K)
    (m : KeySet s K A S) (heap : Heap A) {ρ : Type} : Call K ρ → ρ × KeySet s K A S × Heap A
  | .insert k => insert H m k heap
  | .replace k => replace H m k heap
  | .get k => (get? H m k, m, heap)
  | .contains k => (m.contains H k, m, heap)
  | .count k => (Map.countKey H m k, m, heap)
  | .take k =>
    let (entry, m, heap) := m.erase H k heap
    (entry.map Prod.fst, m, heap)
  | .filter keep state => m.filter (keepKey keep) state heap
  | .clear => ((), m.clear heap)
  | .renew => ((), m.renew heap)
  | .abandon => ((), m.abandon heap)
  | .setMaxLoad maxLoad => ((), m.setMaxLoad maxLoad, heap)

/-! ## The reference -/

section Reference

variable {K ρ : Type}

/-- Keeps the keys that `keep` accepts, front to back. -/
def keepKeys {σ : Type} (keep : σ → K → Bool × σ) : σ → List K → σ × List K
  | state, [] => (state, [])
  | state, k :: keys =>
    let (kept, state) := keep state k
    let (state, rest) := keepKeys keep state keys
    (state, if kept then k :: rest else rest)

/-- Adds a key unless it is denied. -/
def addKey (denied : Option MemoryError) (k : K) (answer : ρ) (keys : List K) :
    Except MemoryError ρ × List K :=
  match denied with
  | some e => (.error e, keys)
  | none => (.ok answer, k :: keys)

/-- What a call on a key set answers and does. -/
def step [BEq K] (denied : Option MemoryError) (order : List K) :
    Call K ρ → List K → ρ × List K
  | .insert k, keys =>
    if keys.any (· == k) then (.ok false, keys) else addKey denied k true keys
  | .replace k, keys =>
    match keys.find? (· == k) with
    | some old => (.ok (some old), changeFirst (· == k) (fun _ => k) keys)
    | none => addKey denied k none keys
  | .get k, keys => (keys.find? (· == k), keys)
  | .contains k, keys => (keys.any (· == k), keys)
  | .count k, keys => ((keys.any (· == k)).toNat, keys)
  | .take k, keys => (keys.find? (· == k), keys.eraseP (· == k))
  | .filter keep state, _ => keepKeys keep state order
  | .clear, _ => ((), [])
  | .renew, _ => ((), [])
  | .abandon, _ => ((), [])
  | .setMaxLoad _, keys => ((), keys)

/-- The entries of a key set. -/
def entries (keys : List K) : List (K × Unit) := keys.map (·, ())

theorem keepList_entries {σ : Type} (keep : σ → K → Bool × σ) (state : σ) (keys : List K) :
    keepList (keepKey keep) state (entries keys) =
      ((keepKeys keep state keys).1, entries (keepKeys keep state keys).2) := by
  induction keys generalizing state with
  | nil => rfl
  | cons k keys ih =>
    simp only [entries, List.map_cons, keepList, keepKey, keepKeys]
    have hrest := ih (keep state k).2
    simp only [entries] at hrest
    rw [hrest]
    by_cases hk : (keep state k).1 <;> simp [hk]

theorem entries_keys (l : List (K × Unit)) : entries (l.map Prod.fst) = l := by
  rw [entries, List.map_map]
  exact List.map_id l

variable [BEq K] (keys : List K) (k : K)

theorem find?_entries : (entries keys).find? (hasKey k) = (keys.find? (· == k)).map (·, ()) :=
  List.find?_map

theorem any_entries : (entries keys).any (hasKey k) = keys.any (· == k) := List.any_map

theorem eraseP_entries : (entries keys).eraseP (hasKey k) = entries (keys.eraseP (· == k)) :=
  List.eraseP_map

theorem changeFirst_entries : changeFirst (hasKey k) (fun _ => (k, ())) (entries keys) =
    entries (changeFirst (· == k) (fun _ => k) keys) := by
  induction keys with
  | nil => rfl
  | cons a keys ih =>
    simp only [entries, List.map_cons, changeFirst, hasKey] at ih ⊢
    rw [ih]
    by_cases ha : a == k <;> simp [ha]

end Reference

/-! ## Calls -/

section Calls

variable {s : Table.Shape} {K A S : Type} [BEq K] [Allocator A] {f : S → K → UInt64}
  {m : KeySet s K A S} {heap : Heap A} {keys : List K}

def Agrees {ρ : Type} (f : S → K → UInt64) (heap : Heap A) (keys : List K)
    (expected : Option MemoryError → ρ × List K) (out : ρ × KeySet s K A S × Heap A) : Prop :=
  out.1 = (expected (s.denial keys.length (heap.refusalSince out.2.2))).1 ∧
    Map.Models f out.2.1 out.2.2
      (entries (expected (s.denial keys.length (heap.refusalSince out.2.2))).2)

variable [EquivBEq K] (hf : Hashing.Faithful f) (h : Map.Models f m heap (entries keys)) (k : K)
include hf h

theorem agrees_insert (order : List K) :
    Agrees f heap keys (fun denied => step denied order (.insert k) keys)
      (insert (.ofFun f) m k heap) := by
  unfold insert Map.insertIfNew
  rcases h.hit_or_miss hf k with ⟨hnone, hm, -⟩ | ⟨rows, others, pre, cell, post, hp, hit, hfind⟩
  · have hany : keys.any (· == k) = false := by
      rw [← any_entries]
      exact List.any_eq_false.mpr (List.find?_eq_none.mp hnone)
    have hadd := h.add hnone ()
    rcases hr : Map.add (.ofFun f) m k () heap with ⟨result, m', heap'⟩
    rw [hr] at hadd
    simp only [hm, step, hany, Bool.false_eq_true, if_false]
    cases hadd with
    | denied denied models =>
      rw [entries, List.length_map] at denied
      simp only [Agrees, Except.map, denied, addKey, true_and]
      exact models
    | granted granted models =>
      rw [entries, List.length_map] at granted
      simp only [Agrees, Except.map, granted, addKey, true_and]
      exact models
  · have hany : keys.any (· == k) = true := by
      rw [← any_entries]
      exact List.any_eq_true.mpr ⟨cell.entry, List.mem_of_find?_eq_some hfind, hit.hasKey⟩
    simp only [Agrees, hit.find?, Except.map, step, hany, if_true, true_and]
    exact h

theorem agrees_replace (order : List K) :
    Agrees f heap keys (fun denied => step denied order (.replace k) keys)
      (replace (.ofFun f) m k heap) := by
  have hmap := Map.agrees_replace hf h [] k ()
  rcases hr : Map.replace (.ofFun f) m k () heap with ⟨result, m', heap'⟩
  rw [hr] at hmap
  obtain ⟨hanswer, models⟩ := hmap
  have hlength : (entries keys).length = keys.length := List.length_map _
  simp only [Reference.step, find?_entries, hlength] at hanswer models
  simp only [Agrees, replace, hr, step]
  cases hfind : keys.find? (· == k) with
  | some old =>
    simp only [hfind, Option.map_some, changeFirst_entries] at hanswer models
    simp only [hanswer, Except.map, Option.map_some, true_and]
    exact models
  | none =>
    simp only [hfind, Option.map_none] at hanswer models
    cases hdenied : s.denial keys.length (heap.refusalSince heap') with
    | some e =>
      simp only [hdenied, Reference.add] at hanswer models
      simp only [hanswer, Except.map, addKey, true_and]
      exact models
    | none =>
      simp only [hdenied, Reference.add] at hanswer models
      simp only [hanswer, Except.map, addKey, Option.map_none, true_and]
      exact models

theorem agrees_perform {ρ : Type} (call : Call K ρ) :
    Agrees f heap keys (fun denied => step denied (m.toList.map Prod.fst) call keys)
      (perform (.ofFun f) m heap call) := by
  cases call with
  | insert k => exact agrees_insert hf h k _
  | replace k => exact agrees_replace hf h k _
  | get k =>
    have hanswer : m.getPair? (.ofFun f) k = (entries keys).find? (hasKey k) :=
      (Map.agrees_common hf h (.getEntry k)).1
    refine ⟨?_, h⟩
    simp only [perform, get?, hanswer, find?_entries, step, Option.map_map]
    exact congrFun Option.map_id _
  | contains k =>
    have hanswer : m.contains (.ofFun f) k = (entries keys).any (hasKey k) :=
      (Map.agrees_common hf h (.contains k)).1
    exact ⟨hanswer.trans (any_entries keys k), h⟩
  | count k =>
    have hanswer : m.contains (.ofFun f) k = (entries keys).any (hasKey k) :=
      (Map.agrees_common hf h (.contains k)).1
    exact ⟨congrArg Bool.toNat (hanswer.trans (any_entries keys k)), h⟩
  | take k =>
    obtain ⟨hanswer, models⟩ := Map.agrees_common hf h (.erase k)
    simp only [Keyed.perform, Keyed.Call.onList, Keyed.Call.visits, Bool.false_eq_true, if_false,
      find?_entries, eraseP_entries] at hanswer models
    refine ⟨?_, models⟩
    simp only [perform, hanswer, step, Option.map_map]
    exact congrFun Option.map_id _
  | filter keep state =>
    obtain ⟨hanswer, models⟩ := Map.agrees_common hf h (.filter (keepKey keep) state)
    simp only [Keyed.perform, Keyed.Call.onList, Keyed.Call.visits, if_true] at hanswer models
    rw [← entries_keys m.toList, keepList_entries] at hanswer models
    exact ⟨hanswer, models⟩
  | clear => exact ⟨rfl, (Map.agrees_common hf h .clear).2⟩
  | renew => exact ⟨rfl, (Map.agrees_common hf h .renew).2⟩
  | abandon => exact ⟨rfl, (Map.agrees_common hf h .abandon).2⟩
  | setMaxLoad maxLoad => exact ⟨rfl, (Map.agrees_common hf h (.setMaxLoad maxLoad)).2⟩

end Calls

/-! ## Runs -/

section Runs

variable {s : Table.Shape} {K V A S : Type} [BEq K] [Allocator A] {f : S → K → UInt64}

/-- What the reference answers and does, if the key set is asked next. -/
def expected {ρ : Type} (f : S → K → UInt64) (m : KeySet s K A S) (heap : Heap A) (call : Call K ρ)
    (keys : List K) : ρ × List K :=
  let later := (perform (.ofFun f) m heap call).2.2
  step (s.denial keys.length (heap.refusalSince later)) (m.toList.map Prod.fst) call keys

inductive Run (f : S → K → UInt64) : KeySet s K A S → Heap A → List K → Prop where
  | start (builder : S) (delegate : A) (serves : List (Event A) → A → Layout → Bool) :
    Run f (.new builder delegate) { serves } []
  | call {m : KeySet s K A S} {heap : Heap A} {keys : List K} {ρ : Type} (h : Run f m heap keys)
    (call : Call K ρ) :
    Run f (perform (.ofFun f) m heap call).2.1 (perform (.ofFun f) m heap call).2.2
      (expected f m heap call keys).2

theorem Run.models [EquivBEq K] (hf : Hashing.Faithful f) {m : KeySet s K A S} {heap : Heap A}
    {keys : List K} (h : Run f m heap keys) : Map.Models f m heap (entries keys) := by
  induction h with
  | start builder delegate serves => exact Map.models_new builder delegate serves
  | call _ call ih => exact (agrees_perform hf ih call).2

end Runs

end KeySet

section

variable {s : Table.Shape} {K V A S : Type} [BEq K] [Allocator A] {f : S → K → UInt64}

/-- In every run a map has the entries of its reference, no two with equal keys, and answers every
call as the reference does; a key set likewise has the keys of its reference. -/
theorem maps_and_keySets_refine_lists [EquivBEq K] (hf : Hashing.Faithful f) :
    (∀ (m : Map s K V A S) (heap : Heap A) (ref : List (K × V)), Map.Run f m heap ref →
      UniqueKeys ref ∧ m.toList.Perm ref ∧ m.walk m.size m.cursor = m.toList ∧
        m.size = ref.length ∧ ∀ {ρ : Type} (call : Map.Call K V ρ),
          (Map.perform (.ofFun f) m heap call).1 = (Map.expected f m heap call ref).1) ∧
      ∀ (m : KeySet s K A S) (heap : Heap A) (keys : List K), KeySet.Run f m heap keys →
        (keys.Pairwise fun a b => (a == b) = false) ∧ (m.toList.map Prod.fst).Perm keys ∧
          m.walk m.size m.cursor = m.toList ∧ m.size = keys.length ∧
          ∀ {ρ : Type} (call : KeySet.Call K ρ),
            (KeySet.perform (.ofFun f) m heap call).1 = (KeySet.expected f m heap call keys).1 := by
  refine ⟨?_, ?_⟩
  · intro m heap ref hrun
    have h := hrun.models hf
    exact ⟨h.unique, h.perm, h.walk_eq, h.size, fun call => (Map.agrees_perform hf h call).1⟩
  · intro m heap keys hrun
    have h := hrun.models hf
    have hkeys : (KeySet.entries keys).map Prod.fst = keys := by
      rw [KeySet.entries, List.map_map]
      exact List.map_id keys
    refine ⟨?_, hkeys ▸ h.perm.map _, h.walk_eq, h.size.trans (List.length_map _),
      fun call => (KeySet.agrees_perform hf h call).1⟩
    rw [← hkeys]
    exact List.pairwise_map.mpr h.unique

/-- One slot, and no overflow memory. -/
def Table.Shape.strict : Table.Shape :=
  ⟨1, 2, false, .uncached, Caching.wordLayout 24, by decide⟩

def hashByParity : Unit → Nat → UInt64 := fun _ k => (k % 2).toUInt64

theorem faithful_hashByParity : Hashing.Faithful hashByParity := fun _ _ _ h => by
  rw [eq_of_beq h]

/-- One slot, and overflow memory. -/
def Table.Shape.lax : Table.Shape := { strict with overflow := true, caching := .cached }

/-- Two keys of three had the same hash, and one of the two was removed after the third had made the
array grow. -/
def grownMap : Map .lax Nat Char Lender Unit × Heap Lender :=
  let heap : Heap Lender := { serves := fun _ _ _ => true }
  let m : Map .lax Nat Char Lender Unit := .new () .plain
  let (_, m, heap) := Map.perform (.ofFun hashByParity) m heap (.insert 1 'a')
  let (_, m, heap) := Map.perform (.ofFun hashByParity) m heap (.insert 3 'b')
  let (_, m, heap) := Map.perform (.ofFun hashByParity) m heap (.insert 2 'c')
  let (_, m, heap) := Map.perform (.ofFun hashByParity) m heap (.common (.erase 1))
  (m, heap)

theorem run_grownMap :
    Map.Run hashByParity grownMap.1 grownMap.2 [(2, 'c'), (3, 'b')] := by
  have hrun : Map.Run (s := .lax) hashByParity _ _ _ :=
    ((((Map.Run.start () Lender.plain fun _ _ _ => true).call (.insert 1 'a')).call
      (.insert 3 'b')).call (.insert 2 'c')).call (.common (.erase 1))
  exact hrun

/-- The array has grown, the key that is left of two in a chain is found, and a full map with one
slot refuses the second key. -/
theorem grown_map_refines_list :
    grownMap.1.table.bucketCount = 5 ∧ grownMap.1.toList.Perm [(2, 'c'), (3, 'b')] ∧
      (Map.perform (.ofFun hashByParity) grownMap.1 grownMap.2 (.insert 3 'd')).1 =
        .ok (some 'b') ∧
      let heap : Heap Lender := { serves := fun _ _ _ => true }
      let m : Map .strict Nat Bool Lender Unit := .new () .plain
      let (_, m, heap) := Map.perform (.ofFun hashByParity) m heap (.insert 1 true)
      m.toList.Perm [(1, true)] ∧
        (Map.perform (.ofFun hashByParity) m heap (.insert 3 true)).1 = .error (.full 1) := by
  have hgrown := (maps_and_keySets_refine_lists faithful_hashByParity).1 _ _ _ run_grownMap
  have hrun : Map.Run (s := .strict) hashByParity _ _ _ :=
    .call (.start () Lender.plain fun _ _ _ => true) (.insert 1 true)
  have hfull := (maps_and_keySets_refine_lists faithful_hashByParity).1 _ _ _ hrun
  exact ⟨by decide +kernel, hgrown.2.1, (hgrown.2.2.2.2 (.insert 3 'd')).trans (by rfl),
    hfull.2.1, (hfull.2.2.2.2 (.insert 3 true)).trans (by rfl)⟩

end

end ArenaHash
