import ArenaHash.Proofs.Container.Calls
import ArenaHash.Proofs.Container.MapStates
import ArenaHash.Proofs.Container.Occurrences
import ArenaHash.Proofs.Container.SelfCheck

/-!
# The self-check under another hash function

A builder may come to hash otherwise than it did when the entries were inserted. The self-check
reads chains and counts as well, but these are always right, so it says exactly whether the entries
are where the builder would look for them now (`Placed.check_iff`). If they are, the container is as
good under the new hash function as under the old one: rows, and what is together in them, do not
depend on it. From then on lookups and all later calls are those of a reference with the entries
that a walk lists.
-/

namespace ArenaHash

open Keyed (hasKey)

namespace Keyed

section Order

variable {s : Table.Shape} {K V A S : Type} [Allocator A] {f f' : S → K → UInt64}
  {c : Keyed s K V A S} {heap : Heap A} {rows : Rows (K × V)} {others : List (Loan A)}

/-- Every entry is in the bucket that its key hashes to at present, and a stored hash is that of
the key. -/
def InOrder (H : Hashing S K) (c : Keyed s K V A S) : Prop :=
  ∀ i, ∀ q ∈ c.table.chain i, ∃ n, c.table.node? q = some n ∧
    (H.stored c.builder q n.entry.1).toNat % c.table.bucketCount = i ∧
    (s.caching = .cached → n.hash = some (H.stored c.builder q n.entry.1))

/-- Entries that were placed under any hash function pass the self-check under another one if and
only if they are in order under it. -/
theorem Placed.check_iff (h : c.Placed f heap rows others) (H : Hashing S K) :
    c.check H = true ↔ c.InOrder H := by
  refine h.stores.check_iff.trans (forall_congr' fun i => forall_congr' fun q => ?_)
  refine imp_congr_right fun hq => ?_
  rw [h.stores.chain_eq] at hq
  obtain ⟨d, hd, rfl⟩ := List.mem_map.mp hq
  obtain ⟨next, hn⟩ := (h.stores.chains i).carries hd
  have hnode : c.table.node? d.ref = some ⟨d.entry, next, d.hash⟩ := hn
  have hhash : d.hash = s.caching.keep (f c.builder d.entry.1) := (h.placed i d hd).1
  simp only [Table.wellPlaced, hnode, Option.any_some, Option.some.injEq, exists_eq_left',
    Bool.and_eq_true, beq_iff_eq, Table.bucketOf, hasher]
  cases hc : s.caching <;> rw [hc] at hhash <;> simp [hhash, Caching.keep, and_comm]

/-- The same rows do for a hash function under which the entries are in order. -/
theorem Placed.rehashed (h : c.Placed f heap rows others) (ho : c.InOrder (.ofFun f')) :
    c.Placed f' heap rows others := by
  refine ⟨h.stores, fun i d hd => ?_⟩
  obtain ⟨next, hn⟩ := (h.stores.chains i).carries hd
  obtain ⟨n, hnode, hbucket, hcached⟩ := ho i d.ref (by
    rw [h.stores.chain_eq]
    exact List.mem_map_of_mem hd)
  obtain rfl : n = ⟨d.entry, next, d.hash⟩ := Option.some.inj (hnode.symm.trans hn)
  refine ⟨?_, hbucket⟩
  have hhash : d.hash = s.caching.keep (f c.builder d.entry.1) := (h.placed i d hd).1
  cases hc : s.caching with
  | cached => exact hcached hc
  | uncached =>
    rw [hc] at hhash
    exact hhash

end Order

variable {s : Table.Shape} {K V A S : Type} [BEq K] [Allocator A] {f : S → K → UInt64}
  {c : Keyed s K V A S} {heap : Heap A} {rows : Rows (K × V)} {others : List (Loan A)}

/-- Lookups miss nothing that a walk lists and find nothing else. -/
structure Complete (f : S → K → UInt64) (c : Keyed s K V A S) : Prop where
  getPair? : ∀ k, c.getPair? (.ofFun f) k = c.walked.find? (hasKey k)
  get? : ∀ k, c.get? (.ofFun f) k = (c.walked.find? (hasKey k)).map Prod.snd
  contains : ∀ k, c.contains (.ofFun f) k = c.walked.any (hasKey k)
  count : ∀ k, c.count (.ofFun f) k = (c.walked.filter (hasKey k)).length

theorem Placed.complete (hf : Hashing.Faithful f) (h : c.Placed f heap rows others) :
    c.Complete f where
  getPair? k := by rw [walked_eq h.stores, h.getPair?_eq hf]
  get? k := by rw [walked_eq h.stores, Keyed.get?, h.getPair?_eq hf]
  contains k := by rw [walked_eq h.stores, h.contains_eq hf]
  count k := by rw [walked_eq h.stores, h.count_eq hf]

/-! ## Later runs -/

/-- The calls of a kind of container, next to a reference with states `R`. -/
structure Interface (s : Table.Shape) (K V A S R : Type) where
  Call : Type → Type 1
  perform {ρ : Type} : Hashing S K → Keyed s K V A S → Heap A → Call ρ →
    ρ × Keyed s K V A S × Heap A
  /-- What the reference answers and does, if the container is asked next. -/
  expected {ρ : Type} : (S → K → UInt64) → Keyed s K V A S → Heap A → Call ρ → R → ρ × R
  /-- Takes out the first entry with a key. -/
  without : K → R → R

/-- What a container comes to from `c₀` on, if its reference starts as `r₀`. Insertions of many
items are several calls. -/
inductive Interface.Later {R : Type} (I : Interface s K V A S R) (f : S → K → UInt64)
    (c₀ : Keyed s K V A S) (heap₀ : Heap A) (r₀ : R) : Keyed s K V A S → Heap A → R → Prop where
  | start : Later I f c₀ heap₀ r₀ c₀ heap₀ r₀
  | call {c : Keyed s K V A S} {heap : Heap A} {r : R} {ρ : Type}
    (h : Later I f c₀ heap₀ r₀ c heap r) (call : I.Call ρ) :
    Later I f c₀ heap₀ r₀ (I.perform (.ofFun f) c heap call).2.1
      (I.perform (.ofFun f) c heap call).2.2 (I.expected f c heap call r).2
  | copy {c c' : Keyed s K V A S} {heap heap' : Heap A} {r : R}
    (h : Later I f c₀ heap₀ r₀ c heap r) (hr : c.copy heap = (.ok c', heap')) :
    Later I f c₀ heap₀ r₀ c' heap' r
  | pop {c c' : Keyed s K V A S} {heap heap' : Heap A} {r : R} {position i : Nat} {e : K × V}
    (h : Later I f c₀ heap₀ r₀ c heap r) (hr : c.pop position heap = (some e, i, c', heap')) :
    Later I f c₀ heap₀ r₀ c' heap' (I.without e.1 r)
  | setDelegate {c : Keyed s K V A S} {heap : Heap A} {r : R}
    (h : Later I f c₀ heap₀ r₀ c heap r) (delegate : A) :
    Later I f c₀ heap₀ r₀ (c.setDelegate delegate).2 heap r
  /-- Other holders borrow and return. -/
  | elsewhere {c : Keyed s K V A S} {heap heap' : Heap A} {r : R} {others : List (Loan A)}
    (h : Later I f c₀ heap₀ r₀ c heap r)
    (hl : heap'.Lends (c.table.loans c.table.refs ++ others)) : Later I f c₀ heap₀ r₀ c heap' r

end Keyed

/-! ### Maps and key sets -/

namespace Map

variable {s : Table.Shape} {K V A S : Type} [BEq K] [Allocator A] {f f' : S → K → UInt64}
  {m m₀ m' : Map s K V A S} {heap heap₀ heap' : Heap A} {ref ref₀ : List (K × V)}

abbrev interface : Keyed.Interface s K V A S (List (K × V)) where
  Call := Call K V
  perform H c heap call := perform H c heap call
  expected f c heap call r := expected f c heap call r
  without k := List.eraseP (hasKey k)

/-- A map is its reference, up to order. -/
structure Follows (f : S → K → UInt64) (m : Map s K V A S) (heap : Heap A) (ref : List (K × V)) :
    Prop where
  unique : UniqueKeys ref
  perm : m.walked.Perm ref
  size : m.size = ref.length
  answer : ∀ {ρ : Type} (call : Call K V ρ),
    (perform (.ofFun f) m heap call).1 = (expected f m heap call ref).1
  /-- What an owning iterator takes out was there. -/
  pop : ∀ {position i : Nat} {e : K × V} {m' : Map s K V A S} {heap' : Heap A},
    m.pop position heap = (some e, i, m', heap') → ref.find? (hasKey e.1) = some e
  check : m.check (.ofFun f) = true

theorem Models.rehashed (h : Models f m heap ref) (ho : m.InOrder (.ofFun f')) :
    Models f' m heap ref := by
  obtain ⟨rows, others, hp⟩ := h.placed
  exact ⟨⟨rows, others, hp.rehashed ho⟩, h.perm, h.unique⟩

variable [EquivBEq K]

theorem Models.of_perm (h : Models f m heap ref) (hp : ref.Perm ref₀) : Models f m heap ref₀ :=
  ⟨h.placed, h.perm.trans hp, h.unique.perm hp⟩

/-- A key is counted once if it is there. -/
theorem Models.countKey_eq (hf : Hashing.Faithful f) (h : Models f m heap ref) (k : K) :
    countKey (.ofFun f) m k = (m.walked.filter (hasKey k)).length := by
  obtain ⟨rows, others, hp⟩ := h.placed
  have hkeys : (m.toList.map Prod.fst).Pairwise fun a b => (a == b) = false :=
    List.pairwise_map.mpr h.toList.unique
  have hcount := count_of_pairwise hkeys k
  rw [List.count, List.countP_map, List.any_map] at hcount
  rw [countKey, hp.contains_eq hf, Keyed.walked_eq hp.stores, ← List.countP_eq_length_filter]
  exact hcount.symm

theorem Models.popped (hf : Hashing.Faithful f) (h : Models f m heap ref) {position i : Nat}
    {e : K × V} (hr : m.pop position heap = (some e, i, m', heap')) :
    ref.find? (hasKey e.1) = some e ∧ Models f m' heap' (ref.eraseP (hasKey e.1)) := by
  obtain ⟨rows, others, hp⟩ := h.placed
  obtain ⟨left, right, rows', hl, hleft, hc⟩ := hp.becomes_pop hf hr
  have he : hasKey e.1 e = true := BEq.rfl
  have hunique := h.toList.unique
  have hfind : m.toList.find? (hasKey e.1) = some e := by
    rw [hl]
    exact List.find?_eq_some_iff_append.mpr ⟨he, left, right, rfl, hleft⟩
  have herase : m.toList.eraseP (hasKey e.1) = left ++ right := by
    rw [hl, List.eraseP_append_right _ fun d hd => by simpa using hleft d hd,
      List.eraseP_cons_of_pos he]
  refine ⟨(hunique.find?_perm h.perm e.1).symm.trans hfind, ?_⟩
  refine Models.of_perm (.of_becomes hc ?_) (herase ▸ hunique.eraseP_perm h.perm e.1)
  rw [hl] at hunique
  exact hunique.sublist ((List.Sublist.append_left (List.sublist_cons_self e right) left).map _)

theorem Models.follows (hf : Hashing.Faithful f) (h : Models f m heap ref) :
    Follows f m heap ref := by
  obtain ⟨rows, others, hp⟩ := h.placed
  exact {
    unique := h.unique
    perm := Keyed.walked_eq hp.stores ▸ h.perm
    size := h.size
    answer := fun call => (agrees_perform hf h call).1
    pop := fun hr => (h.popped hf hr).1
    check := hp.inPlace.check }

theorem Models.later (hf : Hashing.Faithful f) (h₀ : Models f m₀ heap₀ ref₀)
    (h : interface.Later f m₀ heap₀ ref₀ m heap ref) : Models f m heap ref := by
  induction h with
  | start => exact h₀
  | call _ call ih => exact (agrees_perform hf ih call).2
  | copy _ hr ih => exact (ih.copy hr).of_perm ih.perm
  | pop _ hr ih => exact (ih.popped hf hr).2
  | setDelegate _ delegate ih => exact (ih.setDelegate delegate).of_perm ih.perm
  | elsewhere _ hl ih => exact ih.elsewhere hl

end Map

namespace KeySet

variable {s : Table.Shape} {K A S : Type} [BEq K] [Allocator A] {f : S → K → UInt64}
  {m m₀ : KeySet s K A S} {heap heap₀ : Heap A} {keys keys₀ : List K}

abbrev interface : Keyed.Interface s K Unit A S (List K) where
  Call := Call K
  perform H c heap call := perform H c heap call
  expected f c heap call r := expected f c heap call r
  without k := List.eraseP (· == k)

/-- A key set is its reference, up to order. -/
structure Follows (f : S → K → UInt64) (m : KeySet s K A S) (heap : Heap A) (keys : List K) :
    Prop where
  unique : keys.Pairwise fun a b => (a == b) = false
  perm : (m.walked.map Prod.fst).Perm keys
  size : m.size = keys.length
  answer : ∀ {ρ : Type} (call : Call K ρ),
    (perform (.ofFun f) m heap call).1 = (expected f m heap call keys).1
  pop : ∀ {position i : Nat} {e : K × Unit} {m' : KeySet s K A S} {heap' : Heap A},
    m.pop position heap = (some e, i, m', heap') → keys.find? (· == e.1) = some e.1
  check : m.check (.ofFun f) = true

variable [EquivBEq K]

theorem follows (hf : Hashing.Faithful f) (h : Map.Models f m heap (entries keys)) :
    Follows f m heap keys := by
  have hkeys : (entries keys).map Prod.fst = keys := by
    rw [entries, List.map_map]
    exact List.map_id keys
  have hmap := h.follows hf
  refine {
    unique := ?_, perm := hkeys ▸ hmap.perm.map _, size := hmap.size.trans (List.length_map _),
    answer := fun call => (agrees_perform hf h call).1, pop := fun hr => ?_, check := hmap.check }
  · rw [← hkeys]
    exact List.pairwise_map.mpr h.unique
  · have hfind := (find?_entries keys _).symm.trans (hmap.pop hr)
    obtain ⟨k, hk, rfl⟩ := Option.map_eq_some_iff.mp hfind
    exact hk

theorem later (hf : Hashing.Faithful f) (h₀ : Map.Models f m₀ heap₀ (entries keys₀))
    (h : interface.Later f m₀ heap₀ keys₀ m heap keys) : Map.Models f m heap (entries keys) := by
  induction h with
  | start => exact h₀
  | call _ call ih => exact (agrees_perform hf ih call).2
  | copy _ hr ih => exact (ih.copy hr).of_perm ih.perm
  | pop _ hr ih =>
    have hpopped := (ih.popped hf hr).2
    rw [eraseP_entries] at hpopped
    exact hpopped
  | setDelegate _ delegate ih => exact (ih.setDelegate delegate).of_perm ih.perm
  | elsewhere _ hl ih => exact ih.elsewhere hl

end KeySet

/-! ### Multimaps and key bags -/

namespace Multimap

variable {s : Table.Shape} {K V A S : Type} [BEq K] [Allocator A] {f f' : S → K → UInt64}
  {m m₀ : Multimap s K V A S} {heap heap₀ : Heap A} {R R₀ : Runs K V}

abbrev interface : Keyed.Interface s K V A S (Runs K V) where
  Call := Call K V
  perform H c heap call := perform H c heap call
  expected f c heap call r := expected f c heap call r
  without k R := R.change k List.tail

/-- Each key has its run, and a walk lists all of them. -/
structure Follows (f : S → K → UInt64) (m : Multimap s K V A S) (heap : Heap A) (R : Runs K V) :
    Prop where
  shows : ∀ k, m.Shows f k (R k)
  size : m.size = m.walked.length
  answer : ∀ {ρ : Type} (call : Call K V ρ),
    (perform (.ofFun f) m heap call).1 = (expected f m heap call R).1
  pop : ∀ {position i : Nat} {e : K × V} {m' : Multimap s K V A S} {heap' : Heap A},
    m.pop position heap = (some e, i, m', heap') → (R e.1).head? = some e
  check : m.check (.ofFun f) = true

theorem Models.rehashed (h : Models f m heap R) (ho : m.InOrder (.ofFun f')) :
    Models f' m heap R := by
  obtain ⟨rows, others, hp, hcl⟩ := h.placed
  exact ⟨⟨rows, others, hp.rehashed ho, hcl⟩, h.runs⟩

variable [EquivBEq K] (hf : Hashing.Faithful f)
include hf

theorem Models.follows (h : Models f m heap R) : Follows f m heap R := by
  obtain ⟨rows, others, hp, -⟩ := h.placed
  refine {
    shows := h.shows hf, size := ?_, answer := fun call => (agrees_perform hf h call).1,
    pop := fun {position i e m' heap'} hr => ?_, check := hp.inPlace.check }
  · rw [Keyed.walked_eq hp.stores, hp.size_eq]
  · obtain ⟨left, right, rows', hl, hleft, -⟩ := hp.becomes_pop hf hr
    rw [← h.runs, hl, Runs.ofList, List.head?_filter]
    exact List.find?_eq_some_iff_append.mpr ⟨BEq.rfl, left, right, rfl, hleft⟩

theorem Models.later (h₀ : Models f m₀ heap₀ R₀)
    (h : interface.Later f m₀ heap₀ R₀ m heap R) : Models f m heap R := by
  induction h with
  | start => exact h₀
  | call _ call ih => exact (agrees_perform hf ih call).2
  | copy _ hr ih => exact ih.copy hr
  | pop _ hr ih => exact ih.pop hf hr
  | setDelegate _ delegate ih => exact ih.setDelegate delegate
  | elsewhere _ hl ih => exact ih.elsewhere hl

end Multimap

namespace KeyBag

variable {s : Table.Shape} {K A S : Type} [BEq K] [Allocator A] {f : S → K → UInt64}
  {m m₀ : KeyBag s K A S} {heap heap₀ : Heap A} {R R₀ : Runs K Unit}

abbrev interface : Keyed.Interface s K Unit A S (Runs K Unit) where
  Call := Call K
  perform H c heap call := perform H c heap call
  expected f c heap call r := expected f c heap call r
  without k R := R.change k List.tail

theorem later (h : interface.Later f m₀ heap₀ R₀ m heap R) :
    Multimap.interface.Later f m₀ heap₀ R₀ m heap R := by
  induction h with
  | start => exact .start
  | @call c heap r ρ h call ih =>
    rw [show interface.perform (.ofFun f) c heap call = _ from perform_eq (.ofFun f) c heap call,
      show interface.expected f c heap call r = _ from expected_eq call]
    exact ih.call call.onEntries.2.1
  | copy _ hr ih => exact ih.copy hr
  | pop _ hr ih => exact ih.pop hr
  | setDelegate _ delegate ih => exact ih.setDelegate delegate
  | elsewhere _ hl ih => exact ih.elsewhere hl

theorem answer [EquivBEq K] (hf : Hashing.Faithful f) (h : Multimap.Models f m heap R) {ρ : Type}
    (call : Call K ρ) :
    (perform (.ofFun f) m heap call).1 = (expected f m heap call R).1 := by
  rw [perform_eq, expected_eq]
  exact congrArg call.onEntries.2.2 (Multimap.agrees_perform hf h call.onEntries.2.1).1

end KeyBag

section

variable {s : Table.Shape} {K V A S : Type} [BEq K] [Allocator A] {f : S → K → UInt64}

/-- Whatever was done to a container under one hash function, and however keys are hashed
afterwards, the self-check succeeds if and only if every entry is in the bucket of its present hash
and every stored hash is the present one. If it succeeds under a faithful hash function, lookups
under that function agree with what a walk lists, and from then on the container follows the
reference that starts with the entries listed. -/
theorem self_check_exact [EquivBEq K] (hf : Hashing.Faithful f) :
    (∀ (c : Keyed s K V A S) (heap : Heap A), Keyed.Reached f c heap →
      ∀ H : Hashing S K, c.check H = true ↔ c.InOrder H) ∧
    ∀ f' : S → K → UInt64, Hashing.Faithful f' →
      (∀ (c : Keyed s K V A S) (heap : Heap A), Keyed.Reached f c heap →
        c.check (.ofFun f') = true → c.Complete f') ∧
      (∀ (m : Map s K V A S) (heap : Heap A), Map.Reached f m heap →
        m.check (.ofFun f') = true →
          (∀ k, Map.countKey (.ofFun f') m k = (m.walked.filter (hasKey k)).length) ∧
          ∀ later heap' ref, Map.interface.Later f' m heap m.walked later heap' ref →
            Map.Follows f' later heap' ref) ∧
      (∀ (m : KeySet s K A S) (heap : Heap A), Map.Reached f m heap →
        m.check (.ofFun f') = true →
          ∀ later heap' keys,
            KeySet.interface.Later f' m heap (m.walked.map Prod.fst) later heap' keys →
              KeySet.Follows f' later heap' keys) ∧
      (∀ (m : Multimap s K V A S) (heap : Heap A) (R : Runs K V), Multimap.Run f m heap R →
        m.check (.ofFun f') = true →
          (∀ k, Multimap.Shows f' m k (m.walked.filter (hasKey k))) ∧
          ∀ later heap' R',
            Multimap.interface.Later f' m heap (Runs.ofList m.walked) later heap' R' →
              Multimap.Follows f' later heap' R') ∧
      ∀ (m : KeyBag s K A S) (heap : Heap A) (R : Runs K Unit), KeyBag.Run f m heap R →
        m.check (.ofFun f') = true →
          ∀ later heap' R',
            KeyBag.interface.Later f' m heap (Runs.ofList m.walked) later heap' R' →
              Multimap.Follows f' later heap' R' ∧ ∀ {ρ : Type} (call : KeyBag.Call K ρ),
                (KeyBag.perform (.ofFun f') later heap' call).1 =
                  (KeyBag.expected f' later heap' call R').1 := by
  have hmap : ∀ {W : Type} (m : Map s K W A S) (heap : Heap A), Map.Reached f m heap →
      ∀ {f' : S → K → UInt64}, m.check (.ofFun f') = true → Map.Models f' m heap m.walked := by
    intro W m heap h f' hcheck
    have hmodels := h.models hf
    obtain ⟨rows, others, hp⟩ := hmodels.placed
    rw [Keyed.walked_eq hp.stores]
    exact hmodels.rehashed ((hp.check_iff _).mp hcheck)
  have hmultimap : ∀ {W : Type} (m : Multimap s K W A S) (heap : Heap A) (R : Runs K W),
      Multimap.Run f m heap R → ∀ {f' : S → K → UInt64}, m.check (.ofFun f') = true →
        Multimap.Models f' m heap (Runs.ofList m.walked) := by
    intro W m heap R h f' hcheck
    have hmodels := h.models hf
    obtain ⟨rows, others, hp, -⟩ := hmodels.placed
    rw [Keyed.walked_eq hp.stores, hmodels.runs]
    exact hmodels.rehashed ((hp.check_iff _).mp hcheck)
  refine ⟨?_, fun f' hf' => ⟨?_, ?_, ?_, ?_, ?_⟩⟩
  · intro c heap h H
    obtain ⟨rows, others, hp⟩ := h.placed hf
    exact hp.check_iff H
  · intro c heap h hcheck
    obtain ⟨rows, others, hp⟩ := h.placed hf
    exact (hp.rehashed ((hp.check_iff _).mp hcheck)).complete hf'
  · intro m heap h hcheck
    have hm := hmap m heap h hcheck
    exact ⟨hm.countKey_eq hf', fun later heap' ref hl => (hm.later hf' hl).follows hf'⟩
  · intro m heap h hcheck later heap' keys hl
    have hm := hmap m heap h hcheck
    rw [← KeySet.entries_keys m.walked] at hm
    exact KeySet.follows hf' (KeySet.later hf' hm hl)
  · intro m heap R h hcheck
    have hm := hmultimap m heap R h hcheck
    exact ⟨hm.shows hf', fun later heap' R' hl => (hm.later hf' hl).follows hf'⟩
  · intro m heap R h hcheck later heap' R' hl
    have hm := (hmultimap m heap R h.multimap hcheck).later hf' (KeyBag.later hl)
    exact ⟨hm.follows hf', KeyBag.answer hf' hm⟩

/-- Goes by parity up to three. -/
def hashByFew : Unit → Nat → UInt64 := fun _ k => if k ≤ 3 then (k % 2).toUInt64 else k.toUInt64

theorem faithful_hashByFew : Hashing.Faithful hashByFew := fun _ _ _ h => by
  rw [eq_of_beq h]

/-- The hash of a key up to three is the stored one. A hash that is larger by the bucket count leads
to the same bucket, but it is not stored. -/
theorem grownMap_rechecked :
    grownMap.1.check (.ofFun fun _ k => (k % 2 + grownMap.1.table.bucketCount).toUInt64) = false ∧
      grownMap.1.check (.ofFun hashByFew) = true ∧
      grownMap.1.contains (.ofFun hashByFew) 3 = true ∧
      grownMap.1.contains (.ofFun hashByFew) 1 = false ∧
      let (_, later, heap) := Map.perform (.ofFun hashByFew) grownMap.1 grownMap.2 (.insert 9 'd')
      Map.Follows hashByFew later heap [(9, 'd'), (2, 'c'), (3, 'b')] := by
  have h := (self_check_exact (s := .lax) (V := Char) (A := Lender)
    faithful_hashByParity).2 hashByFew faithful_hashByFew
  have hreached := run_grownMap.reached
  have hcheck : grownMap.1.check (.ofFun hashByFew) = true := by decide +kernel
  have hcomplete := h.1 _ _ hreached.keyed hcheck
  have hlater : Map.interface.Later hashByFew grownMap.1 grownMap.2 grownMap.1.walked _ _ _ :=
    .call .start (Map.Call.insert 9 'd')
  have hexpected : (Map.expected hashByFew grownMap.1 grownMap.2 (Map.Call.insert 9 'd')
    grownMap.1.walked).2 = [(9, 'd'), (2, 'c'), (3, 'b')] := by decide +kernel
  exact ⟨by decide +kernel, hcheck, (hcomplete.contains 3).trans (by decide +kernel),
    (hcomplete.contains 1).trans (by decide +kernel),
    hexpected ▸ (h.2.1 _ _ hreached hcheck).2 _ _ _ hlater⟩

end

end ArenaHash
