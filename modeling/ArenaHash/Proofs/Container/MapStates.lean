import ArenaHash.Proofs.Container.Reached

/-!
# The states of maps

`Map.Run` follows the calls on a map that has its heap to itself. `Map.Reached` are the states that
a map comes to among others on one heap, when it is also copied, gives up entries to an owning
iterator and is given another overflow allocator. Insertions of many items are several steps, and
so are calls on key sets, which may add a key without an answer for its value (`keep`). No state
has two entries with equal keys.
-/

namespace ArenaHash

open Keyed (hasKey)

namespace Map

variable {s : Table.Shape} {K V A S : Type} [BEq K] [Allocator A] {f : S → K → UInt64}
  {m m' : Map s K V A S} {heap heap' : Heap A} {ref : List (K × V)}

inductive Reached (f : S → K → UInt64) : Map s K V A S → Heap A → Prop where
  | new {heap : Heap A} {others : List (Loan A)} (builder : S) (delegate : A)
    (hl : heap.Lends others) : Reached f (.new builder delegate) heap
  | call {m : Map s K V A S} {heap : Heap A} {ρ : Type} (h : Reached f m heap)
    (call : Call K V ρ) :
    Reached f (perform (.ofFun f) m heap call).2.1 (perform (.ofFun f) m heap call).2.2
  | keep {m : Map s K V A S} {heap : Heap A} (h : Reached f m heap) (k : K) (v : V) :
    Reached f (insertIfNew (.ofFun f) m k v heap).2.1 (insertIfNew (.ofFun f) m k v heap).2.2
  | copy {m m' : Map s K V A S} {heap heap' : Heap A} (h : Reached f m heap)
    (hr : m.copy heap = (.ok m', heap')) : Reached f m' heap'
  | pop {m m' : Map s K V A S} {heap heap' : Heap A} {position i : Nat} {e : K × V}
    (h : Reached f m heap) (hr : m.pop position heap = (some e, i, m', heap')) :
    Reached f m' heap'
  | setDelegate {m : Map s K V A S} {heap : Heap A} (h : Reached f m heap) (delegate : A) :
    Reached f (m.setDelegate delegate).2 heap
  /-- Other holders borrow and return. -/
  | elsewhere {m : Map s K V A S} {heap heap' : Heap A} {others : List (Loan A)}
    (h : Reached f m heap) (hl : heap'.Lends (m.table.loans m.table.refs ++ others)) :
    Reached f m heap'

theorem Run.reached (h : Run f m heap ref) : Reached f m heap := by
  induction h with
  | start builder delegate serves => exact .new builder delegate (Heap.lends_nil serves)
  | call _ call ih => exact ih.call call

/-- What a map comes to, a container does. -/
theorem Reached.keyed (h : Reached f m heap) : Keyed.Reached f m heap := by
  induction h with
  | new builder delegate hl => exact .new builder delegate hl
  | call _ call ih => exact ih.step (.map call)
  | keep _ k v ih => exact ih.step (.keep k v)
  | copy _ hr ih => exact ih.step (.copy hr)
  | @pop m m' heap heap' position i e _ hr ih =>
    have hs : Keyed.Step f m heap _ _ := .pop position
    rw [hr] at hs
    exact ih.step hs
  | setDelegate _ delegate ih => exact ih.step (.setDelegate delegate)
  | elsewhere _ hl ih => exact ih.elsewhere hl

theorem Reached.insertMany {ι : Type} {insert : Keyed.Insertion ι (Map s K V A S) A}
    (hstep : ∀ {m : Map s K V A S} {heap : Heap A} (x : ι), Reached f m heap →
      Reached f (insert m x heap).2.1 (insert m x heap).2.2)
    (items : List ι) (h : Reached f m heap) :
    Reached f (Keyed.insertMany insert m items heap).2.1
      (Keyed.insertMany insert m items heap).2.2 := by
  induction items generalizing m heap with
  | nil => exact h
  | cons x items ih =>
    have hx := hstep x h
    unfold Keyed.insertMany
    rcases hi : insert m x heap with ⟨_ | _, m', heap'⟩ <;> rw [hi] at hx
    · exact hx
    · exact ih hx

theorem Reached.insertion (x : K × V) (h : Reached f m heap) :
    Reached f (insertion (.ofFun f) m x heap).2.1 (insertion (.ofFun f) m x heap).2.2 :=
  h.call (.insert x.1 x.2)

theorem Reached.keySet {m : KeySet s K A S} {ρ : Type} (h : Reached f m heap)
    (call : KeySet.Call K ρ) :
    Reached f (KeySet.perform (.ofFun f) m heap call).2.1
      (KeySet.perform (.ofFun f) m heap call).2.2 := by
  cases call with
  | insert k => exact h.keep k ()
  | replace k => exact h.call (.replace k ())
  | get k => exact h.call (.common (.getEntry k))
  | contains k => exact h.call (.common (.contains k))
  | count k => exact h.call (.count k)
  | take k => exact h.call (.common (.erase k))
  | filter keep state => exact h.call (.common (.filter (KeySet.keepKey keep) state))
  | clear => exact h.call (.common .clear)
  | renew => exact h.call (.common .renew)
  | abandon => exact h.call (.common .abandon)
  | setMaxLoad maxLoad => exact h.call (.common (.setMaxLoad maxLoad))

/-! ## No two entries have equal keys -/

/-- Values changed and entries went. -/
theorem Models.of_becomes {rows rows' : Rows (K × V)} {others : List (Loan A)} {l : List (K × V)}
    (hc : m.Becomes f rows others l m' heap' rows') (hl : UniqueKeys l) : Models f m' heap' l :=
  ⟨⟨_, _, hc.placed⟩, .of_eq hc.toList, hl⟩

theorem Models.elsewhere (h : Models f m heap ref) {others' : List (Loan A)}
    (hl : heap'.Lends (m.table.loans m.table.refs ++ others')) : Models f m heap' ref := by
  obtain ⟨rows, others, hp⟩ := h.placed
  exact ⟨⟨_, _, hp.elsewhere hl⟩, h.perm, h.unique⟩

variable [EquivBEq K]

/-- A map models the list of its entries. -/
theorem Models.toList (h : Models f m heap ref) : Models f m heap m.toList :=
  ⟨h.placed, .refl _, h.unique.perm h.perm.symm⟩

theorem Models.copy (h : Models f m heap ref) (hr : m.copy heap = (.ok m', heap')) :
    Models f m' heap' m.toList := by
  obtain ⟨rows, others, hp⟩ := h.placed
  obtain ⟨rows', hc⟩ := hp.becomes_copy hr
  exact .of_becomes hc h.toList.unique

theorem Models.setDelegate (h : Models f m heap ref) (delegate : A) :
    Models f (m.setDelegate delegate).2 heap m.toList := by
  obtain ⟨rows, others, hp⟩ := h.placed
  exact .of_becomes (hp.becomes_setDelegate delegate) h.toList.unique

variable (hf : Hashing.Faithful f)
include hf

theorem Models.keep (h : Models f m heap ref) (k : K) (v : V) :
    ∃ ref', Models f (insertIfNew (.ofFun f) m k v heap).2.1
      (insertIfNew (.ofFun f) m k v heap).2.2 ref' := by
  unfold insertIfNew
  rcases h.hit_or_miss hf k with ⟨hnone, hm, -⟩ | ⟨rows, others, pre, cell, post, hp, hit, -⟩
  · have hadd := h.add hnone v
    rcases hr : Map.add (.ofFun f) m k v heap with ⟨result, m', heap'⟩
    rw [hr] at hadd
    simp only [hm]
    cases hadd with
    | denied denied models => exact ⟨_, models⟩
    | granted granted models found => exact ⟨_, models⟩
  · simp only [hit.find?]
    exact ⟨ref, h⟩

theorem Models.pop (h : Models f m heap ref) {position i : Nat} {e : K × V}
    (hr : m.pop position heap = (some e, i, m', heap')) : ∃ ref', Models f m' heap' ref' := by
  obtain ⟨rows, others, hp⟩ := h.placed
  obtain ⟨left, right, rows', hl, -, hc⟩ := hp.becomes_pop hf hr
  refine ⟨_, .of_becomes hc (h.toList.unique.sublist ?_)⟩
  rw [hl]
  exact (List.Sublist.append_left (List.sublist_cons_self e right) left).map _

theorem Reached.models (h : Reached f m heap) : Models f m heap m.toList := by
  have hmodels : ∃ ref, Models f m heap ref := by
    induction h with
    | new builder delegate hl =>
      have hp := Keyed.placed_new (s := s) (f := f) (V := V) builder delegate hl
      refine ⟨_, ⟨_, _, hp⟩, .refl _, ?_⟩
      rw [hp.toList_eq]
      simp [UniqueKeys]
    | call _ call ih => exact ih.elim fun ref h => ⟨_, (agrees_perform hf h call).2⟩
    | keep _ k v ih => exact ih.elim fun ref h => h.keep hf k v
    | copy _ hr ih => exact ih.elim fun ref h => ⟨_, h.copy hr⟩
    | pop _ hr ih => exact ih.elim fun ref h => h.pop hf hr
    | setDelegate _ delegate ih => exact ih.elim fun ref h => ⟨_, h.setDelegate delegate⟩
    | elsewhere _ hl ih => exact ih.elim fun ref h => ⟨_, h.elsewhere hl⟩
  exact hmodels.elim fun ref h => h.toList

end Map

end ArenaHash
