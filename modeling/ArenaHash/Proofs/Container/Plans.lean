import ArenaHash.Proofs.Container.Reached
import ArenaHash.Proofs.Table.Room

/-!
# Containers and their growth plans

Calls that do not insert only return blocks to the heap, and of those only `renew`, `abandon` and
`setMaxLoad` touch the growth plan (`Call.replans`). Every state that a container comes to is tuned:
its growth plan has the limit of the present bucket count.
-/

namespace ArenaHash.Keyed

variable {s : Table.Shape} {K V A S : Type} {c c' : Keyed s K V A S} {heap heap' : Heap A}

theorem samePlan_modifyAt (c : Keyed s K V A S) (q : Ref) (g : V → V) :
    c.table.SamePlan (c.modifyAt q g).2.table := by
  unfold modifyAt
  split
  · exact .setEntry _ _ _
  · exact .refl _

theorem size_modifyAt (c : Keyed s K V A S) (q : Ref) (g : V → V) :
    (c.modifyAt q g).2.size = c.size := by
  unfold modifyAt
  split <;> rfl

theorem samePlan_changeAlong (changes : List (V → V)) (c : Keyed s K V A S) (cursor : Cursor) :
    c.table.SamePlan (changeAlong changes c cursor).2.table := by
  induction changes generalizing c cursor with
  | nil => exact .refl _
  | cons g changes ih =>
    unfold changeAlong
    split
    · next entry c' next hn =>
      obtain ⟨step, -, hstep⟩ := Option.bind_eq_some_iff.mp hn
      obtain ⟨stored, -, heq⟩ := Option.map_eq_some_iff.mp hstep
      cases heq
      exact (Table.SamePlan.setEntry c.table step.1 _).trans (ih ⟨_, c.builder⟩ step.2)
    · exact .refl _

theorem size_changeAlong (changes : List (V → V)) (c : Keyed s K V A S) (cursor : Cursor) :
    (changeAlong changes c cursor).2.size = c.size := by
  induction changes generalizing c cursor with
  | nil => rfl
  | cons g changes ih =>
    unfold changeAlong
    split
    · next entry c' next hn =>
      obtain ⟨step, -, hstep⟩ := Option.bind_eq_some_iff.mp hn
      obtain ⟨stored, -, heq⟩ := Option.map_eq_some_iff.mp hstep
      cases heq
      exact ih _ _
    · rfl

variable [BEq K]

theorem samePlan_modify (H : Hashing S K) (c : Keyed s K V A S) (k : K) (g : V → V) :
    c.table.SamePlan (c.modify H k g).2.table := by
  unfold modify
  split
  · exact samePlan_modifyAt c _ g
  · exact .refl _

theorem size_modify (H : Hashing S K) (c : Keyed s K V A S) (k : K) (g : V → V) :
    (c.modify H k g).2.size = c.size := by
  unfold modify
  split
  · exact size_modifyAt c _ g
  · rfl

variable [Allocator A] {ρ : Type}

/-- Whether a call sets the growth plan. -/
def Call.replans : Call K V ρ → Bool
  | .renew | .abandon | .setMaxLoad _ => true
  | _ => false

theorem perform_releases (H : Hashing S K) (c : Keyed s K V A S) (heap : Heap A)
    {call : Call K V ρ} (hc : call.replans = false) :
    c.table.Releases heap (perform H c heap call).2.1.table (perform H c heap call).2.2 := by
  cases call with
  | get k | getEntry k | contains k => exact .refl _ _
  | modify k g => exact (samePlan_modify H c k g).releases (size_modify H c k g) heap
  | erase k => exact .erase _ _ _ _
  | filter keep state => exact .filter (keepEntry keep) _ state heap
  | change changes =>
    have hsize := size_changeAlong changes c c.cursor
    exact (samePlan_changeAlong changes c c.cursor).releases hsize heap
  | clear => exact .clear _ _
  | renew | abandon | setMaxLoad => cases hc

theorem perform_takesBack (H : Hashing S K) (c : Keyed s K V A S) (heap : Heap A)
    (call : Call K V ρ) : heap.TakesBack (perform H c heap call).2.2 := by
  cases hc : call.replans with
  | false => exact (perform_releases H c heap hc).returns
  | true =>
    cases call with
    | renew => exact c.table.takesBack_dispose heap
    | abandon => exact c.table.takesBack_shrink heap
    | setMaxLoad => exact .refl
    | _ => cases hc

variable {f : S → K → UInt64} {rows : Rows (K × V)} {others : List (Loan A)}

theorem perform_tuned (H : Hashing S K) (h : c.table.Stores heap rows [] others)
    (ht : c.table.Tuned) (call : Call K V ρ) : (perform H c heap call).2.1.table.Tuned := by
  cases hc : call.replans with
  | false => exact (perform_releases H c heap hc).tuned ht
  | true =>
    cases call with
    | renew => exact h.tuned_renew
    | abandon => exact h.tuned_abandon
    | setMaxLoad maxLoad => exact ht.setMaxLoad maxLoad
    | _ => cases hc

/-! ## Insertions -/

/-! Where the key is absent, an entry is added. -/

section

variable {H : Hashing S K} {k : K} (h : c.contains H k = false) (v : V) (heap : Heap A)
include h

omit [Allocator A] in
theorem find?_of_absent : c.find? H k = none := by simpa [contains] using h

theorem insert_of_absent : Map.insert H c k v heap =
    ((Map.add H c k v heap).1.map fun _ => none, (Map.add H c k v heap).2) := by
  rw [Map.insert, locate?, find?_of_absent h]
  rfl

theorem replace_of_absent : Map.replace H c k v heap =
    ((Map.add H c k v heap).1.map fun _ => none, (Map.add H c k v heap).2) := by
  rw [Map.replace, locate?, find?_of_absent h]
  rfl

theorem insertIfNew_of_absent : Map.insertIfNew H c k v heap =
    ((Map.add H c k v heap).1.map (·, true), (Map.add H c k v heap).2) := by
  rw [Map.insertIfNew, find?_of_absent h]

end

section

variable (H : Hashing S K) (c : Keyed s K V A S) (heap : Heap A) (k : K) (v : V)

omit [BEq K] in
theorem roomed_add : c.table.Roomed (c.hasher H) heap (Map.add H c k v heap).2.1.table :=
  .inr (.insertFront _ _ _ _ _)

theorem roomed_insert : c.table.Roomed (c.hasher H) heap (Map.insert H c k v heap).2.1.table := by
  unfold Map.insert
  split
  · exact .inl (.setEntry _ _ _)
  · exact roomed_add H c heap k v

theorem roomed_replace :
    c.table.Roomed (c.hasher H) heap (Map.replace H c k v heap).2.1.table := by
  unfold Map.replace
  split
  · exact .inl (.setEntry _ _ _)
  · exact roomed_add H c heap k v

theorem roomed_insertIfNew :
    c.table.Roomed (c.hasher H) heap (Map.insertIfNew H c k v heap).2.1.table := by
  unfold Map.insertIfNew
  split
  · exact .inl (.refl _)
  · exact roomed_add H c heap k v

theorem roomed_insertIfNew_call (g : V → V) :
    c.table.Roomed (c.hasher H) heap
      (Map.perform H c heap (.insertIfNew k v g)).2.1.table := by
  have hi := roomed_insertIfNew H c heap k v
  unfold Map.perform
  simp only
  rcases hr : Map.insertIfNew H c k v heap with ⟨e | ⟨q, isNew⟩, m, later⟩ <;> rw [hr] at hi
  · exact hi
  · exact hi.trans (samePlan_modifyAt m q g)

theorem roomed_insertBeside :
    c.table.Roomed (c.hasher H) heap (Multimap.insert H c k v heap).2.1.table :=
  .inr (.insertBeside _ _ _ _ _ _)

end

/-- The change afterwards asks for nothing. -/
theorem insertIfNew_heap (H : Hashing S K) (c : Keyed s K V A S) (k : K) (v : V) (g : V → V)
    (heap : Heap A) : (Map.perform H c heap (.insertIfNew k v g)).2.2 =
      (Map.insertIfNew H c k v heap).2.2 := by
  simp only [Map.perform]
  rcases Map.insertIfNew H c k v heap with ⟨_ | ⟨q, isNew⟩, m, later⟩ <;> rfl

/-! An insertion asks for nothing if its key is present or if adding its entry asks for nothing. -/

section

variable (H : Hashing S K) (h : c.table.Stores heap rows [] others) {k : K} {v : V}
  (hadd : c.contains H k = false → (Map.add H c k v heap).2.2 = heap)
include h hadd

theorem heap_insert : (Map.insert H c k v heap).2.2 = heap := by
  unfold Map.insert
  rcases lookup_cases H h k with ⟨-, hf, hl⟩ | ⟨pre, cell, post, -, -, -, -, hl⟩ <;>
    simp only [hl]
  exact hadd (by rw [contains, hf]; rfl)

theorem heap_replace : (Map.replace H c k v heap).2.2 = heap := by
  unfold Map.replace
  rcases lookup_cases H h k with ⟨-, hf, hl⟩ | ⟨pre, cell, post, -, -, -, -, hl⟩ <;>
    simp only [hl]
  exact hadd (by rw [contains, hf]; rfl)

theorem heap_insertIfNew : (Map.insertIfNew H c k v heap).2.2 = heap := by
  unfold Map.insertIfNew
  rcases lookup_cases H h k with ⟨-, hf, -⟩ | ⟨pre, cell, post, -, -, -, hf, -⟩ <;>
    simp only [hf]
  exact hadd (by rw [contains, hf]; rfl)

theorem heap_insertIfNew_call (g : V → V) :
    (Map.perform H c heap (.insertIfNew k v g)).2.2 = heap := by
  rw [insertIfNew_heap, heap_insertIfNew H h hadd]

end

section

variable (h : c.table.Stores heap rows [] others) (ht : c.table.Tuned) (H : Hashing S K)
include h ht

theorem tuned_map (call : Map.Call K V ρ) : (Map.perform H c heap call).2.1.table.Tuned := by
  cases call with
  | insert k v => exact ht.roomed h (roomed_insert H c heap k v)
  | insertIfNew k v g => exact ht.roomed h (roomed_insertIfNew_call H c heap k v g)
  | replace k v => exact ht.roomed h (roomed_replace H c heap k v)
  | count k => exact ht
  | common call => exact perform_tuned H h ht call

theorem tuned_multimap (call : Multimap.Call K V ρ) :
    (Multimap.perform H c heap call).2.1.table.Tuned := by
  cases call with
  | insert k v => exact ht.roomed h (roomed_insertBeside H c heap k v)
  | count k | equalRun k => exact ht
  | eraseAll k => exact (Table.Releases.eraseUpTo _ _ _ _ heap).tuned ht
  | common call => exact perform_tuned H h ht call

theorem Step.tuned (hs : c.Step f heap c' heap') : c'.table.Tuned := by
  cases hs with
  | map call => exact tuned_map h ht _ call
  | multimap call => exact tuned_multimap h ht _ call
  | keep k v => exact ht.roomed h (roomed_insertIfNew _ c heap k v)
  | pop position => exact (Table.Releases.pop _ position heap).tuned ht
  | setDelegate delegate => exact (Table.SamePlan.setDelegate _ delegate).tuned ht
  | copied => exact ht
  | copy hr =>
    obtain ⟨t', hr', rfl⟩ := table_copy_of_ok hr
    exact (h.samePlan_copy hr').tuned ht

end

theorem Reached.tuned [EquivBEq K] (hf : Hashing.Faithful f) (h : Reached f c heap) :
    c.table.Tuned := by
  induction h with
  | new builder delegate hl => exact Table.tuned_new delegate
  | step h hs ih =>
    obtain ⟨rows, others, hp⟩ := h.placed hf
    exact hs.tuned hp.stores ih
  | elsewhere _ _ ih => exact ih

end ArenaHash.Keyed
