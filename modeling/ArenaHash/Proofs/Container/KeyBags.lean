import ArenaHash.Proofs.Container.KeySets
import ArenaHash.Proofs.Container.Multimaps

/-!
# Key bags as runs

A key bag is a multimap without values. Each call on it is a call on a multimap that shows less of
its answer (`Call.onEntries`), so what is known of multimaps holds of key bags. The last theorem is
about both: each key has its run, and every call answers as the runs do.
-/

namespace ArenaHash

namespace KeyBag

inductive Call (K : Type) : Type → Type 1 where
  | insert (k : K) : Call K (Except MemoryError Unit)
  | get (k : K) : Call K (Option K)
  | getAll (k : K) : Call K (List K)
  | contains (k : K) : Call K Bool
  | count (k : K) : Call K Nat
  | take (k : K) : Call K (Option K)
  | eraseAll (k : K) : Call K Nat
  | filter {σ : Type} (keep : σ → K → Bool × σ) (state : σ) : Call K σ
  | clear : Call K Unit
  | renew : Call K Unit
  | abandon : Call K Unit
  | setMaxLoad (maxLoad : Binary32) : Call K Unit

variable {s : Table.Shape} {K A S : Type} [BEq K] [Allocator A] {ρ : Type}

def perform (H : Hashing S K) (m : KeyBag s K A S) (heap : Heap A) :
    Call K ρ → ρ × KeyBag s K A S × Heap A
  | .insert k => insert H m k heap
  | .get k => (get? H m k, m, heap)
  | .getAll k => (getAll H m k, m, heap)
  | .contains k => (m.contains H k, m, heap)
  | .count k => (m.count H k, m, heap)
  | .take k =>
    let (entry, m, heap) := m.erase H k heap
    (entry.map Prod.fst, m, heap)
  | .eraseAll k => m.eraseAll H k heap
  | .filter keep state => m.filter (KeySet.keepKey keep) state heap
  | .clear => ((), m.clear heap)
  | .renew => ((), m.renew heap)
  | .abandon => ((), m.abandon heap)
  | .setMaxLoad maxLoad => ((), m.setMaxLoad maxLoad, heap)

/-- What a call on a key bag answers and does. -/
def step (denied : Option MemoryError) (order : List (K × Unit)) :
    Call K ρ → Runs K Unit → ρ × Runs K Unit
  | .insert k, R =>
    match denied with
    | some e => (.error e, R)
    | none => (.ok (), R.change k (push (k, ())))
  | .get k, R => ((R k).head?.map Prod.fst, R)
  | .getAll k, R => ((R k).map Prod.fst, R)
  | .contains k, R => (!(R k).isEmpty, R)
  | .count k, R => ((R k).length, R)
  | .take k, R => ((R k).head?.map Prod.fst, R.change k List.tail)
  | .eraseAll k, R => ((R k).length, R.change k fun _ => [])
  | .filter keep state, _ =>
    let (state, kept) := keepList (KeySet.keepKey keep) state order
    (state, Runs.ofList kept)
  | .clear, _ => ((), fun _ => [])
  | .renew, _ => ((), fun _ => [])
  | .abandon, _ => ((), fun _ => [])
  | .setMaxLoad _, R => ((), R)

/-- The call on a multimap, and what is shown of its answer. -/
def Call.onEntries : Call K ρ → (σ : Type) × Multimap.Call K Unit σ × (σ → ρ)
  | .insert k => ⟨_, .insert k (), id⟩
  | .get k => ⟨_, .equalRun k, fun run => run.head?.map Prod.fst⟩
  | .getAll k => ⟨_, .equalRun k, fun run => run.map Prod.fst⟩
  | .contains k => ⟨_, .common (.contains k), id⟩
  | .count k => ⟨_, .count k, id⟩
  | .take k => ⟨_, .common (.erase k), fun entry => entry.map Prod.fst⟩
  | .eraseAll k => ⟨_, .eraseAll k, id⟩
  | .filter keep state => ⟨_, .common (.filter (KeySet.keepKey keep) state), id⟩
  | .clear => ⟨_, .common .clear, id⟩
  | .renew => ⟨_, .common .renew, id⟩
  | .abandon => ⟨_, .common .abandon, id⟩
  | .setMaxLoad maxLoad => ⟨_, .common (.setMaxLoad maxLoad), id⟩

theorem perform_eq (H : Hashing S K) (m : KeyBag s K A S) (heap : Heap A)
    (call : Call K ρ) :
    perform H m heap call =
      (call.onEntries.2.2 (Multimap.perform H m heap call.onEntries.2.1).1,
        (Multimap.perform H m heap call.onEntries.2.1).2) := by
  cases call <;> rfl

theorem step_eq (denied : Option MemoryError) (order : List (K × Unit)) (call : Call K ρ)
    (R : Runs K Unit) :
    step denied order call R =
      (call.onEntries.2.2 (Runs.step denied order call.onEntries.2.1 R).1,
        (Runs.step denied order call.onEntries.2.1 R).2) := by
  cases call with
  | insert k => cases denied <;> rfl
  | _ => rfl

/-! ## Runs of calls -/

variable {f : S → K → UInt64} {m : KeyBag s K A S} {heap : Heap A} {R : Runs K Unit}

/-- What the reference answers and does, if the key bag is asked next. -/
def expected (f : S → K → UInt64) (m : KeyBag s K A S) (heap : Heap A) (call : Call K ρ)
    (R : Runs K Unit) : ρ × Runs K Unit :=
  let later := (perform (.ofFun f) m heap call).2.2
  step (s.denial m.size (heap.refusalSince later)) m.toList call R

inductive Run (f : S → K → UInt64) : KeyBag s K A S → Heap A → Runs K Unit → Prop where
  | start {heap : Heap A} {others : List (Loan A)} (builder : S) (delegate : A)
    (hl : heap.Lends others) : Run f (.new builder delegate) heap fun _ => []
  | call {m : KeyBag s K A S} {heap : Heap A} {R : Runs K Unit} {ρ : Type} (h : Run f m heap R)
    (call : Call K ρ) :
    Run f (perform (.ofFun f) m heap call).2.1 (perform (.ofFun f) m heap call).2.2
      (expected f m heap call R).2
  | copy {m m' : KeyBag s K A S} {heap heap' : Heap A} {R : Runs K Unit} (h : Run f m heap R)
    (hr : m.copy heap = (.ok m', heap')) : Run f m' heap' R
  | pop {m m' : KeyBag s K A S} {heap heap' : Heap A} {R : Runs K Unit} {position i : Nat}
    {e : K × Unit} (h : Run f m heap R) (hr : m.pop position heap = (some e, i, m', heap')) :
    Run f m' heap' (R.change e.1 List.tail)
  | setDelegate {m : KeyBag s K A S} {heap : Heap A} {R : Runs K Unit} (h : Run f m heap R)
    (delegate : A) : Run f (m.setDelegate delegate).2 heap R
  | elsewhere {m : KeyBag s K A S} {heap heap' : Heap A} {R : Runs K Unit}
    {others : List (Loan A)} (h : Run f m heap R)
    (hl : heap'.Lends (m.table.loans m.table.refs ++ others)) : Run f m heap' R

theorem expected_eq (call : Call K ρ) :
    expected f m heap call R =
      (call.onEntries.2.2 (Multimap.expected f m heap call.onEntries.2.1 R).1,
        (Multimap.expected f m heap call.onEntries.2.1 R).2) := by
  simp only [expected, perform_eq, step_eq, Multimap.expected]

theorem Run.multimap (h : Run f m heap R) : Multimap.Run f m heap R := by
  induction h with
  | start builder delegate hl => exact .start builder delegate hl
  | call _ call ih =>
    rw [perform_eq, expected_eq]
    exact ih.call call.onEntries.2.1
  | copy _ hr ih => exact ih.copy hr
  | pop _ hr ih => exact ih.pop hr
  | setDelegate _ delegate ih => exact ih.setDelegate delegate
  | elsewhere _ hl ih => exact ih.elsewhere hl

variable [EquivBEq K] (hf : Hashing.Faithful f)
include hf

theorem Run.answer (h : Run f m heap R) (call : Call K ρ) :
    (perform (.ofFun f) m heap call).1 = (expected f m heap call R).1 := by
  obtain ⟨hanswer, -⟩ := Multimap.agrees_perform hf (h.multimap.models hf) call.onEntries.2.1
  rw [perform_eq, expected_eq]
  exact congrArg call.onEntries.2.2 hanswer

theorem Run.insertMany (h : Run f m heap R) (keys : List K) :
    ∃ done rest, keys = done ++ rest ∧
      Run f (Keyed.insertMany (insertion (.ofFun f)) m keys heap).2.1
        (Keyed.insertMany (insertion (.ofFun f)) m keys heap).2.2
        (done.foldl (fun R k => R.change k (push (k, ()))) R) ∧
      ((Keyed.insertMany (insertion (.ofFun f)) m keys heap).1 = .ok () → rest = []) := by
  refine Keyed.insertMany_track (P := Run f) (fun {c heap R} k h result c' heap' hi => ?_) keys h
  have hanswer := h.answer hf (.insert k)
  have hrun := h.call (.insert k)
  have hi : insert (.ofFun f) c k heap = (result, c', heap') := hi
  simp only [expected, perform, hi, step] at hanswer hrun
  cases hd : s.denial c.size (heap.refusalSince heap') with
  | none =>
    rw [hd] at hanswer hrun
    exact .inl ⟨hanswer, hrun⟩
  | some e =>
    rw [hd] at hanswer hrun
    exact .inr ⟨⟨e, hanswer⟩, hrun⟩

end KeyBag

section

variable {s : Table.Shape} {K V A S : Type} [BEq K] [Allocator A] {f : S → K → UInt64}

/-- In every run the entries with a key are one stretch of one chain, the stretch is the run that
the reference has for the key, every way of reading shows it, and every call answers as the
reference does. A filter without a state treats each run on its own, and a list of insertions adds
to the runs until one fails. -/
theorem multimaps_and_keyBags_refine_runs [EquivBEq K] (hf : Hashing.Faithful f) :
    (∀ (m : Multimap s K V A S) (heap : Heap A) (R : Runs K V), Multimap.Run f m heap R →
      (∀ k, Multimap.Shows f m k (R k)) ∧
      (∀ {ρ : Type} (call : Multimap.Call K V ρ),
        (Multimap.perform (.ofFun f) m heap call).1 = (Multimap.expected f m heap call R).1) ∧
      (∀ keep : K → V → Bool × V, (Multimap.expected f m heap (.common (.filter
        (fun _ k v => ((keep k v).1, (keep k v).2, ())) ())) R).2 = R.retain keep) ∧
      ∀ items, ∃ done rest, items = done ++ rest ∧
        let out := Keyed.insertMany (Multimap.insertion (.ofFun f)) m items heap
        Multimap.Run f out.2.1 out.2.2 (done.foldl (fun R e => R.change e.1 (push e)) R) ∧
          (out.1 = .ok () → rest = [])) ∧
      ∀ (m : KeyBag s K A S) (heap : Heap A) (R : Runs K Unit), KeyBag.Run f m heap R →
        (∀ k, Multimap.Shows f m k (R k)) ∧
        (∀ {ρ : Type} (call : KeyBag.Call K ρ),
          (KeyBag.perform (.ofFun f) m heap call).1 = (KeyBag.expected f m heap call R).1) ∧
        ∀ keys, ∃ done rest, keys = done ++ rest ∧
          let out := Keyed.insertMany (KeyBag.insertion (.ofFun f)) m keys heap
          KeyBag.Run f out.2.1 out.2.2 (done.foldl (fun R k => R.change k (push (k, ()))) R) ∧
            (out.1 = .ok () → rest = []) := by
  refine ⟨?_, ?_⟩
  · intro m heap R hrun
    have h := hrun.models hf
    refine ⟨h.shows hf, fun call => (Multimap.agrees_perform hf h call).1, ?_, hrun.insertMany hf⟩
    intro keep
    rw [← h.runs]
    exact Runs.ofList_retain keep m.toList
  · intro m heap R hrun
    exact ⟨(hrun.multimap.models hf).shows hf, hrun.answer hf, hrun.insertMany hf⟩

theorem lax_multimap_shows_runs :
    let heap : Heap Lender := { serves := fun _ _ _ => true }
    let m : Multimap .lax Nat Char Lender Unit := .new () .plain
    let (_, m, heap) := Multimap.perform (.ofFun hashByParity) m heap (.insert 1 'a')
    let (_, m, heap) := Multimap.perform (.ofFun hashByParity) m heap (.insert 3 'b')
    let (_, m, _) := Multimap.perform (.ofFun hashByParity) m heap (.insert 1 'c')
    m.toList = [(3, 'b'), (1, 'a'), (1, 'c')] ∧
      Multimap.Shows hashByParity m 1 [(1, 'a'), (1, 'c')] := by
  have hrun : Multimap.Run (s := .lax) hashByParity _ _ _ :=
    (((Multimap.Run.start () Lender.plain (Heap.lends_nil fun _ _ _ => true)).call
      (.insert 1 'a')).call (.insert 3 'b')).call (.insert 1 'c')
  have h := ((multimaps_and_keyBags_refine_runs faithful_hashByParity).1 _ _ _ hrun).1 1
  exact ⟨by rfl, h⟩

end

end ArenaHash
