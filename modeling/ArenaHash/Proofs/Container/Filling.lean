import ArenaHash.Proofs.Container.Bulk
import ArenaHash.Proofs.Container.Calls

/-!
# Filling the slots

Building a container that may not overflow succeeds if and only if the items fit: a map or a key set
needs a slot for each distinct key, a multimap or a key bag one for each item. Extending one takes
all items before the first that needs one slot too many and none from there on, not even those whose
keys are there.
-/

namespace ArenaHash

open Keyed (hasKey)

/-- How many keys there are, equal ones counted once. -/
def distinct {K : Type} [BEq K] (keys : List K) : Nat := keys.eraseDups.length

theorem distinct_le_append {K : Type} [BEq K] [EquivBEq K] (l m : List K) :
    distinct l ≤ distinct (l ++ m) := by
  induction m using List.reverseRecOn with
  | nil => rw [List.append_nil]
  | append_singleton m x ih =>
    refine ih.trans ?_
    rw [← List.append_assoc, distinct, distinct, eraseDups_concat]
    split
    · exact le_rfl
    · rw [List.length_append]
      exact Nat.le_add_right _ _

/-! ## What the items leave -/

section

variable {s : Table.Shape} {K V A S : Type} [BEq K]

/-- Each distinct key is there once, as its first item has it and with the value of its last. -/
structure Map.Binds (f : S → K → UInt64) (m : Map s K V A S) (items : List (K × V)) : Prop where
  keys : (m.walked.map Prod.fst).Perm (items.map Prod.fst).eraseDups
  size : m.size = distinct (items.map Prod.fst)
  stored : ∀ k, (m.getPair? (.ofFun f) k).map Prod.fst = (items.find? (hasKey k)).map Prod.fst
  value : ∀ k, m.get? (.ofFun f) k = (items.reverse.find? (hasKey k)).map Prod.snd

/-- Each distinct key is there once, as its first item has it. -/
structure KeySet.Stores (f : S → K → UInt64) (m : KeySet s K A S) (items : List K) : Prop where
  keys : (m.walked.map Prod.fst).Perm items.eraseDups
  size : m.size = distinct items
  stored : ∀ k, KeySet.get? (.ofFun f) m k = items.find? (· == k)

structure Multimap.Lists (m : Multimap s K V A S) (items : List (K × V)) : Prop where
  entries : m.walked.Perm items
  size : m.size = items.length

structure KeyBag.Lists (m : KeyBag s K A S) (items : List K) : Prop where
  keys : (m.walked.map Prod.fst).Perm items
  size : m.size = items.length

variable [EquivBEq K] [Allocator A] {f : S → K → UInt64}

theorem Map.Holding.binds (hf : Hashing.Faithful f) {c₀ c : Map s K V A S} {heap : Heap A}
    {items : List (K × V)} (h : Holding f c₀ c heap items) : c.Binds f items := by
  obtain ⟨-, ref, hm, hr⟩ := h
  obtain ⟨rows, others, hp⟩ := hm.placed
  have hpair : ∀ k, c.getPair? (.ofFun f) k = ref.find? (hasKey k) := fun k => by
    rw [hp.getPair?_eq hf, hm.unique.find?_perm hm.perm.symm]
  exact {
    keys := (Keyed.walked_eq hp.stores ▸ hm.perm.map Prod.fst).trans hr.keys
    size := hm.size.trans hr.length_eq
    stored := fun k => by rw [hpair, hr.stored]
    value := fun k => by rw [Keyed.get?, hpair, hr.value] }

theorem KeySet.Holding.stores (hf : Hashing.Faithful f) {c₀ c : KeySet s K A S} {heap : Heap A}
    {items : List K} (h : Holding f c₀ c heap items) : KeySet.Stores f c items := by
  have hmap := Map.Holding.binds hf h
  have hkeys : (entries items).map Prod.fst = items := by
    rw [entries, List.map_map]
    exact List.map_id items
  refine { keys := hkeys ▸ hmap.keys, size := hkeys ▸ hmap.size, stored := fun k => ?_ }
  rw [get?, hmap.stored, find?_entries, Option.map_map]
  exact congrFun Option.map_id _

theorem Multimap.Holding.lists (hf : Hashing.Faithful f) {c₀ c : Multimap s K V A S}
    {heap : Heap A} {items : List (K × V)} (h : Holding f c₀ c heap items) : c.Lists items := by
  obtain ⟨ho, hperm⟩ := h
  obtain ⟨rows, others, hp⟩ := ho.reached.placed hf
  exact ⟨Keyed.walked_eq hp.stores ▸ hperm, hp.size_eq.trans hperm.length_eq⟩

theorem KeyBag.Holding.lists (hf : Hashing.Faithful f) {c₀ c : KeyBag s K A S} {heap : Heap A}
    {items : List K} (h : Holding f c₀ c heap items) : KeyBag.Lists c items := by
  have hmultimap := Multimap.Holding.lists hf h
  have hkeys : (KeySet.entries items).map Prod.fst = items := by
    rw [KeySet.entries, List.map_map]
    exact List.map_id items
  exact ⟨hkeys ▸ hmultimap.entries.map Prod.fst, hmultimap.size.trans (List.length_map _)⟩

end

namespace Keyed

variable {s : Table.Shape} {K V A S ι : Type}

/-- Building a container takes all items or answers that there are too few slots. -/
structure Builds [Allocator A] (insert : Insertion ι (Keyed s K V A S) A) (slots : List ι → Nat)
    (holds : Keyed s K V A S → List ι → Prop) (builder : S) (delegate : A) (heap : Heap A)
    (items : List ι) : Prop where
  fit : slots items ≤ s.capacity →
    ∃ c, ofList insert builder delegate items heap = (.ok c, heap) ∧ holds c items
  exceed : s.capacity < slots items →
    ofList insert builder delegate items heap = (.error (.full s.capacity), heap)

/-- A container that holds the items `before` is extended by the items `done`, becomes `c'`, and
none of the `rest` goes in. -/
structure Extension (insert : Insertion ι (Keyed s K V A S) A) (slots : List ι → Nat)
    (holds : Keyed s K V A S → List ι → Prop) (c : Keyed s K V A S) (heap : Heap A)
    (before items done rest : List ι) (c' : Keyed s K V A S) : Prop where
  split : items = done ++ rest
  front : insertMany insert c done heap = (.ok (), c', heap)
  all : insertMany insert c items heap =
    (if rest.isEmpty then .ok () else .error (.full s.capacity), c', heap)
  holds : holds c' (before ++ done)
  fit : slots (before ++ done) ≤ s.capacity
  exceed : ∀ x ∈ rest.head?, s.capacity < slots (before ++ done ++ [x])

variable [BEq K] [Allocator A] {f : S → K → UInt64} {c c' : Keyed s K V A S}
  {heap heap' : Heap A} {insert : Insertion ι (Keyed s K V A S) A} {slots : List ι → Nat}
  {P : Keyed s K V A S → Heap A → List ι → Prop} {holds : Keyed s K V A S → List ι → Prop}
  {before items done rest : List ι}

/-- Insertions that add their items one by one, as long as there are slots for what they leave. -/
structure Counted (f : S → K → UInt64) (insert : Insertion ι (Keyed s K V A S) A)
    (slots : List ι → Nat) (P : Keyed s K V A S → Heap A → List ι → Prop)
    (holds : Keyed s K V A S → List ι → Prop) : Prop where
  step : ∀ x (c : Keyed s K V A S) heap, c.Step f heap (insert c x heap).2.1 (insert c x heap).2.2
  fills : ∀ {c heap before} (x : ι), P c heap before →
    c.Fills insert (fun items => s.shortage (slots items)) P before x heap
  holds : ∀ {c heap items}, P c heap items → holds c items
  size : ∀ {c heap items}, P c heap items → c.size = slots items
  /-- More items need no fewer slots. -/
  mono : ∀ l m, slots l ≤ slots (l ++ m)

section

variable (ho : s.overflow = false)
include ho

omit [BEq K] [Allocator A] in
/-- Why an extension stops, in numbers. -/
theorem Filled.extension
    (h : Filled insert (fun items => s.shortage (slots items)) P c heap before items done rest c'
      heap) (hholds : P c' heap (before ++ done) → holds c' (before ++ done)) :
    Extension insert slots holds c heap before items done rest c' := by
  have hfit : ∀ {n}, s.shortage n = none → n ≤ s.capacity := fun {n} hn => by
    simpa [Table.Shape.shortage, ho] using hn
  have hexceed : ∀ {n e}, s.shortage n = some e → s.capacity < n ∧ e = .full s.capacity :=
    fun {n e} hn => by
      simp only [Table.Shape.shortage, ho, Bool.false_or, decide_eq_true_eq] at hn
      split at hn
      · cases hn
      · next hlt => exact ⟨Nat.lt_of_not_le hlt, (Option.some.inj hn).symm⟩
  refine ⟨h.split, h.front, ?_, hholds h.holds, hfit h.room, ?_⟩
  · rcases h.stop with ⟨rfl, hall⟩ | ⟨x, tail, e, rfl, hshort, hall⟩
    · exact hall
    · rw [hall, (hexceed hshort).2]
      rfl
  · rcases h.stop with ⟨rfl, -⟩ | ⟨x, tail, e, rfl, hshort, -⟩
    · exact nofun
    · rintro _ ⟨⟩
      exact (hexceed hshort).1

variable [EquivBEq K] (hf : Hashing.Faithful f)
include hf

theorem Reached.insertMany_silent
    (hs : ∀ x (c : Keyed s K V A S) heap, c.Step f heap (insert c x heap).2.1 (insert c x heap).2.2)
    (items : List ι) (h : Reached f c heap) :
    (Keyed.insertMany insert c items heap).2.2 = heap := by
  induction items generalizing c heap with
  | nil => rfl
  | cons x items ih =>
    have hx := (h.withinCapacity ho hf).silent _ _ (hs x c heap)
    have hreached := h.step (hs x c heap)
    unfold Keyed.insertMany
    rcases hi : insert c x heap with ⟨_ | _, c', heap'⟩
    · rw [hi] at hx
      exact hx
    · rw [hi] at hx hreached
      obtain rfl : heap' = heap := hx
      exact ih hreached

variable (hc : Counted f insert slots P holds)
include hc

theorem Counted.exists_extension (h : Reached f c heap) (hP : P c heap before) (items : List ι) :
    ∃ done rest c', Extension insert slots holds c heap before items done rest c' := by
  have hroom : slots before ≤ s.capacity := hc.size hP ▸ (h.withinCapacity ho hf).size_le
  have hnone : s.shortage (slots before) = none := by simp [Table.Shape.shortage, hroom]
  obtain ⟨done, rest, c', heap', hfilled⟩ := exists_filled hc.fills items hP hnone
  have hsilent := h.insertMany_silent ho hf hc.step done
  rw [hfilled.front] at hsilent
  obtain rfl : heap' = heap := hsilent
  exact ⟨done, rest, c', hfilled.extension ho hc.holds⟩

/-- Building is extending a new container, which is disposed of if not all items go in. -/
theorem Counted.builds {builder : S} {delegate : A}
    (h : Reached f (.new builder delegate : Keyed s K V A S) heap)
    (hP : P (.new builder delegate) heap []) (items : List ι) :
    Builds insert slots holds builder delegate heap items := by
  obtain ⟨done, rest, c', hx⟩ := hc.exists_extension ho hf h hP items
  have hreached := h.insertMany hc.step done
  rw [hx.front] at hreached
  have hall := hx.all
  cases hrest : rest with
  | nil =>
    have hitems : items = done := by rw [hx.split, hrest, List.append_nil]
    rw [hrest, hitems] at hall
    rw [hitems]
    refine ⟨fun _ => ⟨c', ?_, hx.holds⟩, fun hlt => absurd hx.fit (Nat.not_le_of_lt hlt)⟩
    rw [ofList, hall]
    rfl
  | cons x tail =>
    have hlt : s.capacity < slots (done ++ [x]) := hx.exceed x (by rw [hrest]; rfl)
    have hle : slots (done ++ [x]) ≤ slots items := by
      rw [hx.split, hrest, List.append_cons done x tail]
      exact hc.mono _ _
    rw [hrest] at hall
    refine ⟨fun hfit => absurd (hle.trans hfit) (Nat.not_le_of_lt hlt), fun _ => ?_⟩
    rw [ofList, hall]
    exact congrArg _ (hreached.withinCapacity ho hf).dispose

end

end Keyed

/-! ## The kinds of containers -/

section

variable {s : Table.Shape} {K V A S : Type} [BEq K] [Allocator A] {f : S → K → UInt64}

variable [EquivBEq K] (hf : Hashing.Faithful f)
include hf

theorem Map.counted (m₀ : Map s K V A S) :
    Keyed.Counted f (insertion (.ofFun f)) (fun items => distinct (items.map Prod.fst))
      (Holding f m₀) (Binds f) where
  step := Keyed.Step.map_insertion
  fills x h := h.fills hf x
  holds h := h.binds hf
  size h := (h.binds hf).size
  mono l m := by
    rw [List.map_append]
    exact distinct_le_append _ _

theorem KeySet.counted (m₀ : KeySet s K A S) :
    Keyed.Counted f (insertion (.ofFun f)) distinct (Holding f m₀) (KeySet.Stores f) where
  step := Keyed.Step.keySet_insertion
  fills k h := h.fills hf k
  holds h := h.stores hf
  size h := (h.stores hf).size
  mono := distinct_le_append

theorem Multimap.counted (m₀ : Multimap s K V A S) :
    Keyed.Counted f (insertion (.ofFun f)) List.length (Holding f m₀) Lists where
  step := Keyed.Step.multimap_insertion
  fills x h := h.fills hf x
  holds h := h.lists hf
  size h := (h.lists hf).size
  mono l m := by
    rw [List.length_append]
    exact Nat.le_add_right _ _

theorem KeyBag.counted (m₀ : KeyBag s K A S) :
    Keyed.Counted f (insertion (.ofFun f)) List.length (Holding f m₀) KeyBag.Lists where
  step := Keyed.Step.keyBag_insertion
  fills k h := h.fills hf k
  holds h := h.lists hf
  size h := (h.lists hf).size
  mono l m := by
    rw [List.length_append]
    exact Nat.le_add_right _ _

/-! ### Where an extension starts -/

variable {heap : Heap A} (hg : s.overflow = true → heap.Generous)
include hg

theorem Map.Reached.holding {m : Map s K V A S} (h : Reached f m heap) :
    Holding f m m heap m.walked := by
  have hm := h.models hf
  obtain ⟨rows, others, hp⟩ := hm.placed
  rw [Keyed.walked_eq hp.stores]
  exact ⟨.refl h.keyed hg, _, hm, .self hm.unique⟩

theorem Map.Reached.holding_keys {m : KeySet s K A S} (h : Reached f m heap) :
    KeySet.Holding f m m heap (m.walked.map Prod.fst) := by
  rw [KeySet.Holding, KeySet.entries_keys]
  exact h.holding hf hg

theorem Keyed.Reached.holding {m : Keyed s K V A S} (h : Reached f m heap) :
    Multimap.Holding f m m heap m.walked := by
  obtain ⟨rows, others, hp⟩ := h.placed hf
  rw [walked_eq hp.stores]
  exact ⟨.refl h hg, .refl _⟩

theorem Keyed.Reached.holding_keys {m : Keyed s K Unit A S} (h : Reached f m heap) :
    KeyBag.Holding f m m heap (m.walked.map Prod.fst) := by
  rw [KeyBag.Holding, KeySet.entries_keys]
  exact h.holding hf hg

end

section

variable {s : Table.Shape} {K V A S : Type} [BEq K] [Allocator A] {f : S → K → UInt64}

/-- Without overflow memory, what is built from a list of items or extended by one uses all slots
and no more. -/
theorem bulk_insertion_fills_slots [EquivBEq K] (ho : s.overflow = false)
    (hf : Hashing.Faithful f) :
    (∀ (builder : S) (delegate : A) (heap : Heap A) (others : List (Loan A)), heap.Lends others →
      (∀ items : List (K × V), Keyed.Builds (Map.insertion (s := s) (.ofFun f))
        (fun items => distinct (items.map Prod.fst)) (Map.Binds f) builder delegate heap items) ∧
      (∀ items : List K, Keyed.Builds (KeySet.insertion (s := s) (.ofFun f)) distinct
        (KeySet.Stores f) builder delegate heap items) ∧
      (∀ items : List (K × V), Keyed.Builds (Multimap.insertion (s := s) (.ofFun f)) List.length
        Multimap.Lists builder delegate heap items) ∧
      ∀ items : List K, Keyed.Builds (KeyBag.insertion (s := s) (.ofFun f)) List.length
        KeyBag.Lists builder delegate heap items) ∧
    (∀ (m : Map s K V A S) (heap : Heap A), Map.Reached f m heap → ∀ items,
      ∃ done rest m', Keyed.Extension (Map.insertion (.ofFun f))
        (fun items => distinct (items.map Prod.fst)) (Map.Binds f) m heap m.walked items done rest
        m') ∧
    (∀ (m : KeySet s K A S) (heap : Heap A), Map.Reached f m heap → ∀ items,
      ∃ done rest m', Keyed.Extension (KeySet.insertion (.ofFun f)) distinct (KeySet.Stores f) m
        heap (m.walked.map Prod.fst) items done rest m') ∧
    (∀ (m : Multimap s K V A S) (heap : Heap A), Keyed.Reached f m heap → ∀ items,
      ∃ done rest m', Keyed.Extension (Multimap.insertion (.ofFun f)) List.length Multimap.Lists m
        heap m.walked items done rest m') ∧
    ∀ (m : KeyBag s K A S) (heap : Heap A), Keyed.Reached f m heap → ∀ items,
      ∃ done rest m', Keyed.Extension (KeyBag.insertion (.ofFun f)) List.length KeyBag.Lists m heap
        (m.walked.map Prod.fst) items done rest m' := by
  have hg : ∀ heap : Heap A, s.overflow = true → heap.Generous :=
    fun _ h => absurd (ho.symm.trans h) nofun
  refine ⟨fun builder delegate heap others hl => ⟨?_, ?_, ?_, ?_⟩, ?_, ?_, ?_, ?_⟩
  · intro items
    have h : Map.Reached f (.new builder delegate : Map s K V A S) heap := .new builder delegate hl
    exact (Map.counted hf _).builds ho hf h.keyed (h.holding hf (hg heap)) items
  · intro items
    have h : Map.Reached f (.new builder delegate : KeySet s K A S) heap :=
      .new builder delegate hl
    exact (KeySet.counted hf _).builds ho hf h.keyed (h.holding_keys hf (hg heap)) items
  · intro items
    have h : Keyed.Reached f (.new builder delegate : Multimap s K V A S) heap :=
      .new builder delegate hl
    exact (Multimap.counted hf _).builds ho hf h (h.holding hf (hg heap)) items
  · intro items
    have h : Keyed.Reached f (.new builder delegate : KeyBag s K A S) heap :=
      .new builder delegate hl
    exact (KeyBag.counted hf _).builds ho hf h (h.holding_keys hf (hg heap)) items
  · intro m heap h items
    exact (Map.counted hf m).exists_extension ho hf h.keyed (h.holding hf (hg heap)) items
  · intro m heap h items
    exact (KeySet.counted hf m).exists_extension ho hf h.keyed (h.holding_keys hf (hg heap)) items
  · intro m heap h items
    exact (Multimap.counted hf m).exists_extension ho hf h (h.holding hf (hg heap)) items
  · intro m heap h items
    exact (KeyBag.counted hf m).exists_extension ho hf h (h.holding_keys hf (hg heap)) items

/-- The second key finds no slot, and then the first one is not looked at any more. -/
theorem strict_map_filled :
    let heap : Heap Lender := { serves := fun _ _ _ => true }
    let m : Map .strict Nat Char Lender Unit := .new () .plain
    let insert : Keyed.Insertion _ (Map .strict Nat Char Lender Unit) Lender :=
      Map.insertion (.ofFun hashByParity)
    let items := [(1, 'a'), (1, 'b'), (2, 'c'), (1, 'd')]
    (Keyed.insertMany insert m items heap).1 = .error (.full 1) ∧
      (Keyed.insertMany insert m items heap).2.1.toList = [(1, 'b')] ∧
      (∃ done rest m', Keyed.Extension insert (fun items => distinct (items.map Prod.fst))
        (Map.Binds hashByParity) m heap m.walked items done rest m') ∧
      (∃ c, Keyed.ofList insert () .plain (items.take 2) heap = (.ok c, heap) ∧
        Map.Binds hashByParity c [(1, 'a'), (1, 'b')]) ∧
      Keyed.ofList insert () .plain items heap = (.error (.full 1), heap) := by
  have h := bulk_insertion_fills_slots (s := .strict) (V := Char) (A := Lender) rfl
    faithful_hashByParity
  have hl := Heap.lends_nil fun (_ : List (Event Lender)) _ _ => true
  have hbuilds := (h.1 () .plain _ [] hl).1
  exact ⟨by rfl, by decide +kernel, h.2.1 _ _ (.new () .plain hl) _, (hbuilds _).fit (by decide),
    (hbuilds _).exceed (by decide)⟩

end

end ArenaHash
