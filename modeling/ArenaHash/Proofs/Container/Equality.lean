import ArenaHash.Proofs.Container.MapStates
import ArenaHash.Proofs.Container.Occurrences

/-!
# Equality of containers

An equality test walks over one container and looks its entries up in the other, under the hash and
the bucket count of that one. So it checks one inclusion and the sizes. `Compares` says that this
compares contents: the test answers whether the two have the same one, as far as the kind of
container tells contents apart. Neither order nor memory comes into it, and the tests are symmetric
and transitive.
-/

namespace ArenaHash

open Keyed (hasKey hasKey_cases)

/-! ## Contents -/

section

variable {K V : Type} [BEq K]

/-- Each key is in both lists or in neither. -/
def SameKeys (l l' : List (K × V)) : Prop := ∀ k, l.any (hasKey k) = l'.any (hasKey k)

/-- The same keys, and under equal keys equal values. -/
structure SameBindings [BEq V] (l l' : List (K × V)) : Prop where
  keys : SameKeys l l'
  values : ∀ e ∈ l, ∀ d ∈ l', hasKey e.1 d → e.2 == d.2

/-- Each key has as many entries in one list as in the other. -/
def SameKeyCounts (l l' : List (K × V)) : Prop := ∀ k, l.countP (hasKey k) = l'.countP (hasKey k)

/-- Each pair is in one list as often as in the other. -/
def SameCounts [BEq V] (l l' : List (K × V)) : Prop := ∀ e, l.count e = l'.count e

/-- The containers that satisfy `ok` are compared by what their entries have in common. -/
structure Compares {C : Type} (ok : C → Prop) (entries : C → List (K × V))
    (same : List (K × V) → List (K × V) → Prop) (eq : C → C → Bool) : Prop where
  iff : ∀ {a b}, ok a → ok b → (eq a b = true ↔ same (entries a) (entries b))
  symm : ∀ {a b}, ok a → ok b → eq a b = eq b a
  trans : ∀ {a b c}, ok a → ok b → ok c → eq a b → eq b c → eq a c
  /-- The order of the entries does not matter, let alone where they are. -/
  perm : ∀ {a a' b b'}, ok a → ok a' → ok b → ok b' → (entries a).Perm (entries a') →
    (entries b).Perm (entries b') → eq a b = eq a' b'

/-- What it takes for a way of having the same content. -/
structure Sameness (same : List (K × V) → List (K × V) → Prop) : Prop where
  symm : ∀ {l l'}, same l l' → same l' l
  trans : ∀ {l l' l''}, same l l' → same l' l'' → same l l''
  perm : ∀ {l l' m}, l.Perm l' → same l m → same l' m

omit [BEq K] in
theorem Sameness.compares {C : Type} {ok : C → Prop} {entries : C → List (K × V)}
    {same : List (K × V) → List (K × V) → Prop} {eq : C → C → Bool} (h : Sameness same)
    (hiff : ∀ {a b}, ok a → ok b → (eq a b = true ↔ same (entries a) (entries b))) :
    Compares ok entries same eq where
  iff := hiff
  symm ha hb := by
    rw [Bool.eq_iff_iff, hiff ha hb, hiff hb ha]
    exact ⟨h.symm, h.symm⟩
  trans ha hb hc hab hbc := by
    rw [hiff ha hb] at hab
    rw [hiff hb hc] at hbc
    exact (hiff ha hc).mpr (h.trans hab hbc)
  perm ha ha' hb hb' hpa hpb := by
    have hmove : ∀ {l l' m m'}, l.Perm l' → m.Perm m' → same l m → same l' m' :=
      fun hl hm hs => h.symm (h.perm hm (h.symm (h.perm hl hs)))
    rw [Bool.eq_iff_iff, hiff ha hb, hiff ha' hb']
    exact ⟨hmove hpa hpb, hmove hpa.symm hpb.symm⟩

theorem sameness_keys : Sameness (SameKeys : List (K × V) → List (K × V) → Prop) where
  symm h k := (h k).symm
  trans h h' k := (h k).trans (h' k)
  perm hp h k := hp.any_eq.symm.trans (h k)

theorem sameness_keyCounts : Sameness (SameKeyCounts : List (K × V) → List (K × V) → Prop) where
  symm h k := (h k).symm
  trans h h' k := (h k).trans (h' k)
  perm hp h k := (hp.countP_eq _).symm.trans (h k)

theorem sameness_counts [BEq V] :
    Sameness (SameCounts : List (K × V) → List (K × V) → Prop) where
  symm h e := (h e).symm
  trans h h' e := (h e).trans (h' e)
  perm hp h e := (hp.count_eq e).symm.trans (h e)

/-- Values are compared through the entry that the list in between has for the key. -/
theorem sameness_bindings [EquivBEq K] [BEq V] [PartialEquivBEq V] :
    Sameness (SameBindings : List (K × V) → List (K × V) → Prop) where
  symm h := ⟨sameness_keys.symm h.keys, fun e he d hd hk =>
    BEq.symm (h.values d hd e he (BEq.symm hk))⟩
  trans {l l' l''} h h' := by
    refine ⟨sameness_keys.trans h.keys h'.keys, fun e he d hd hk => ?_⟩
    have hmem : l'.any (hasKey e.1) = true :=
      (h.keys e.1).symm.trans (List.any_eq_true.mpr ⟨e, he, BEq.rfl⟩)
    obtain ⟨x, hx, hkx⟩ := List.any_eq_true.mp hmem
    exact BEq.trans (h.values e he x hx hkx)
      (h'.values x hx d hd (BEq.trans hk (BEq.symm hkx)))
  perm hp h := ⟨sameness_keys.perm hp h.keys, fun e he => h.values e (hp.mem_iff.mpr he)⟩

/-! ## One inclusion is enough -/

variable [EquivBEq K] {l l' : List (K × V)}

theorem sameKeys_iff (h : UniqueKeys l) (h' : UniqueKeys l') :
    (l.length = l'.length ∧ ∀ e ∈ l, l'.any (hasKey e.1)) ↔ SameKeys l l' := by
  have hl : (l.map Prod.fst).Pairwise fun x y => (x == y) = false := List.pairwise_map.mpr h
  have hl' : (l'.map Prod.fst).Pairwise fun x y => (x == y) = false := List.pairwise_map.mpr h'
  have hkeys := any_eq_iff hl hl'
  simp only [List.length_map, List.forall_mem_map, List.any_map] at hkeys
  exact hkeys

theorem sameKeyCounts_iff :
    (l.length = l'.length ∧ ∀ e ∈ l, l.countP (hasKey e.1) = l'.countP (hasKey e.1)) ↔
      SameKeyCounts l l' := by
  have hkeys := @count_eq_iff K _ (l.map Prod.fst) (l'.map Prod.fst) _
  simp only [List.count_eq_countP, List.length_map, List.forall_mem_map, List.countP_map] at hkeys
  exact hkeys

/-- What a lookup finds has a value equal to `v` if and only if the key is there and all entries
with the key have such a value, of which there is but one. -/
theorem find?_any_iff [BEq V] (h : UniqueKeys l) (k : K) (v : V) :
    ((l.find? (hasKey k)).map Prod.snd).any (v == ·) = true ↔
      l.any (hasKey k) = true ∧ ∀ d ∈ l, hasKey k d → v == d.2 := by
  rcases hasKey_cases k l with hnone | ⟨left, e, right, rfl, he, hleft⟩
  · have hfind : l.find? (hasKey k) = none :=
      List.find?_eq_none.mpr fun d hd => by simpa using hnone d hd
    have hany : l.any (hasKey k) = false :=
      List.any_eq_false.mpr fun d hd => by simpa using hnone d hd
    simp [hfind, hany]
  · have hmem : e ∈ left ++ e :: right := by simp
    have hfind : (left ++ e :: right).find? (hasKey k) = some e :=
      List.find?_eq_some_iff_append.mpr ⟨he, left, right, rfl, hleft⟩
    rw [hfind]
    constructor
    · intro hv
      refine ⟨List.any_eq_true.mpr ⟨e, hmem, he⟩, fun d hd hk => ?_⟩
      rw [h.eq_of_hasKey hd hmem hk he]
      exact hv
    · rintro ⟨-, hv⟩
      exact hv e hmem he

theorem sameBindings_iff [BEq V] (h : UniqueKeys l) (h' : UniqueKeys l') :
    (l.length = l'.length ∧
        ∀ e ∈ l, ((l'.find? (hasKey e.1)).map Prod.snd).any (e.2 == ·) = true) ↔
      SameBindings l l' := by
  simp only [find?_any_iff h']
  constructor
  · rintro ⟨hlen, hall⟩
    exact ⟨(sameKeys_iff h h').mp ⟨hlen, fun e he => (hall e he).1⟩, fun e he => (hall e he).2⟩
  · intro hs
    obtain ⟨hlen, hkeys⟩ := (sameKeys_iff h h').mpr hs.keys
    exact ⟨hlen, fun e he => ⟨hkeys e he, hs.values e he⟩⟩

end

/-! ## The tests -/

section

variable {s : Table.Shape} {K V A S : Type} [BEq K] [EquivBEq K] [Allocator A]
  {f : S → K → UInt64} {heap heap' : Heap A}

theorem Map.beq_iff [BEq V] (hf : Hashing.Faithful f) {a b : Map s K V A S}
    (ha : Reached f a heap) (hb : Reached f b heap') :
    beq (.ofFun f) a b = true ↔ SameBindings a.toList b.toList := by
  obtain ⟨rows, others, hp⟩ := (hb.models hf).placed
  rw [← sameBindings_iff (ha.models hf).unique (hb.models hf).unique, beq, Bool.and_eq_true,
    beq_iff_eq, (ha.models hf).size, (hb.models hf).size, List.all_eq_true]
  refine and_congr_right fun _ => forall₂_congr fun e he => ?_
  show ((b.getPair? (.ofFun f) e.1).map Prod.snd).any (e.2 == ·) = true ↔ _
  rw [hp.getPair?_eq hf]

theorem KeySet.beq_iff (hf : Hashing.Faithful f) {a b : KeySet s K A S}
    (ha : Map.Reached f a heap) (hb : Map.Reached f b heap') :
    beq (.ofFun f) a b = true ↔ SameKeys a.toList b.toList := by
  obtain ⟨rows, others, hp⟩ := (hb.models hf).placed
  rw [← sameKeys_iff (ha.models hf).unique (hb.models hf).unique, beq, Bool.and_eq_true,
    beq_iff_eq, (ha.models hf).size, (hb.models hf).size, List.all_eq_true]
  refine and_congr_right fun _ => forall₂_congr fun e he => ?_
  show b.contains (.ofFun f) e.1 = true ↔ _
  rw [hp.contains_eq hf]

theorem KeyBag.beq_iff (hf : Hashing.Faithful f) {a b : KeyBag s K A S} {R R' : Runs K Unit}
    (ha : Run f a heap R) (hb : Run f b heap' R') :
    beq (.ofFun f) a b = true ↔ SameKeyCounts a.toList b.toList := by
  obtain ⟨rows, others, hpa, -⟩ := (ha.multimap.models hf).placed
  obtain ⟨rows', others', hpb, -⟩ := (hb.multimap.models hf).placed
  rw [← sameKeyCounts_iff, beq, Bool.and_eq_true, beq_iff_eq, hpa.size_eq, hpb.size_eq,
    List.all_eq_true]
  refine and_congr_right fun _ => forall₂_congr fun e he => ?_
  rw [beq_iff_eq, hpa.count_eq hf, hpb.count_eq hf, List.countP_eq_length_filter,
    List.countP_eq_length_filter]

/-- As often as a value occurs under a key, so often does the pair. -/
theorem Multimap.countP_getAll [BEq V] (hf : Hashing.Faithful f) {m : Multimap s K V A S}
    {R : Runs K V} (h : Run f m heap R) (k : K) (v : V) :
    (getAll (.ofFun f) m k).countP (· == v) = m.toList.count (k, v) := by
  obtain ⟨rows, others, hp, hcl⟩ := (h.models hf).placed
  rw [getAll, hp.equalRun_eq hf hcl, List.countP_map, List.countP_filter, List.count_eq_countP]
  refine List.countP_congr fun e _ => ?_
  rw [Bool.and_comm]
  rfl

theorem Multimap.beq_iff [BEq V] (hf : Hashing.Faithful f) {a b : Multimap s K V A S}
    {R R' : Runs K V} (ha : Run f a heap R) (hb : Run f b heap' R') :
    beq (.ofFun f) a b = true ↔
      a.toList.length = b.toList.length ∧ ∀ e ∈ a.toList, a.toList.count e = b.toList.count e := by
  obtain ⟨rows, others, hpa, -⟩ := (ha.models hf).placed
  obtain ⟨rows', others', hpb, -⟩ := (hb.models hf).placed
  rw [beq, Bool.and_eq_true, beq_iff_eq, hpa.size_eq, hpb.size_eq, List.all_eq_true]
  refine and_congr_right fun _ => forall₂_congr fun e he => ?_
  rw [beq_iff_eq, countP_getAll hf ha, countP_getAll hf hb]

/-- Two containers are compared under one hash function, each with its own builder, bucket count,
overflow allocator and past. Maps are equal if they have the same keys and equal values under them,
key sets if they have the same keys, key bags if each key occurs as often in both, and multimaps
over an equivalence of values if each pair does. -/
theorem equality_compares_contents (hf : Hashing.Faithful f) :
    (∀ [BEq V] [PartialEquivBEq V],
      Compares (fun m : Map s K V A S => ∃ heap, Map.Reached f m heap) Keyed.toList SameBindings
        (Map.beq (.ofFun f))) ∧
      Compares (fun m : KeySet s K A S => ∃ heap, Map.Reached f m heap) Keyed.toList SameKeys
        (KeySet.beq (.ofFun f)) ∧
      Compares (fun m : KeyBag s K A S => ∃ heap R, KeyBag.Run f m heap R) Keyed.toList
        SameKeyCounts (KeyBag.beq (.ofFun f)) ∧
      ∀ [BEq V] [EquivBEq V],
        Compares (fun m : Multimap s K V A S => ∃ heap R, Multimap.Run f m heap R) Keyed.toList
          SameCounts (Multimap.beq (.ofFun f)) := by
  refine ⟨?_, ?_, ?_, ?_⟩
  · intro _ _
    refine sameness_bindings.compares ?_
    rintro a b ⟨heap, ha⟩ ⟨heap', hb⟩
    exact Map.beq_iff hf ha hb
  · refine sameness_keys.compares ?_
    rintro a b ⟨heap, ha⟩ ⟨heap', hb⟩
    exact KeySet.beq_iff hf ha hb
  · refine sameness_keyCounts.compares ?_
    rintro a b ⟨heap, R, ha⟩ ⟨heap', R', hb⟩
    exact KeyBag.beq_iff hf ha hb
  · intro _ _
    refine sameness_counts.compares ?_
    rintro a b ⟨heap, R, ha⟩ ⟨heap', R', hb⟩
    exact (Multimap.beq_iff hf ha hb).trans count_eq_iff

def hashFrom : Nat → Nat → UInt64 := fun start k => (start + k).toUInt64

theorem faithful_hashFrom : Hashing.Faithful hashFrom := fun _ _ _ h => by rw [eq_of_beq h]

/-- A map of numbers that is filled from a list and then keeps the keys below 4. -/
def belowFour (start : Nat) (delegate : Lender) (items : List (Nat × Nat)) :
    Map .lax Nat Nat Lender Nat :=
  let (_, m, heap) := Keyed.insertMany (Map.insertion (.ofFun hashFrom)) (.new start delegate)
    items { serves := fun _ _ _ => true }
  (Map.perform (.ofFun hashFrom) m heap
    (.common (.filter (fun _ k v => (k < 4, v, ())) ()))).2.1

theorem reached_belowFour (start : Nat) (delegate : Lender) (items : List (Nat × Nat)) :
    ∃ heap, Map.Reached hashFrom (belowFour start delegate items) heap := by
  have hnew := Map.Reached.new (s := .lax) (K := Nat) (V := Nat) (f := hashFrom) start delegate
    (Heap.lends_nil fun _ _ _ => true)
  exact ⟨_, (hnew.insertMany (fun x h => h.insertion x) items).call _⟩

/-- Neither order nor bucket count nor builder nor overflow allocator tells these two apart. -/
theorem belowFour_equal :
    let a := belowFour 0 .plain [(1, 10), (2, 20), (1, 30)]
    let b := belowFour 4 .default [(7, 0), (6, 0), (5, 0), (4, 0), (2, 20), (1, 30)]
    (a.toList, a.table.bucketCount) = ([(2, 20), (1, 30)], 2) ∧
      (b.toList, b.table.bucketCount) = ([(1, 30), (2, 20)], 11) ∧
      SameBindings a.toList b.toList ∧ Map.beq (.ofFun hashFrom) b a = true := by
  intro a b
  have h := (equality_compares_contents (s := .lax) (A := Lender) (V := Nat)
    faithful_hashFrom).1
  have ha := reached_belowFour 0 .plain [(1, 10), (2, 20), (1, 30)]
  have hb := reached_belowFour 4 .default [(7, 0), (6, 0), (5, 0), (4, 0), (2, 20), (1, 30)]
  have hab : Map.beq (.ofFun hashFrom) a b = true := by decide +kernel
  exact ⟨by decide +kernel, by decide +kernel, (h.iff ha hb).mp hab, (h.symm hb ha).trans hab⟩

end

end ArenaHash
