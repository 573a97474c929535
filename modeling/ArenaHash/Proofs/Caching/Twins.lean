import ArenaHash.Proofs.Caching.Containers
import ArenaHash.Proofs.Container.SelfCheck

/-!
# Stored hashes are not observed

`Twins` are two containers that have come through the same steps, one of shape `s` and one that
stores no hashes, on heaps of their own whose allocators made the same decisions. By the invariant
`Twins.corresponds` the second container is the first without its hashes, so nothing that can be
asked of them tells them apart.
-/

namespace ArenaHash.Keyed

variable {s : Table.Shape} {K V A S : Type} [BEq K] [Allocator A] {f : S → K → UInt64}

/-- Containers that have come through the same steps. -/
inductive Twins (f : S → K → UInt64) :
    Keyed s K V A S → Heap A → Keyed s.bare K V A S → Heap A → Prop where
  | new {heap heap' : Heap A} {others : List (Loan A)} (builder : S) (delegate : A)
    (hl : heap.Lends others) (alike : heap.Alike s heap') :
    Twins f (.new builder delegate) heap (.new builder delegate) heap'
  | map {c : Keyed s K V A S} {d : Keyed s.bare K V A S} {heap heap' : Heap A} {ρ : Type}
    (h : Twins f c heap d heap') (call : Map.Call K V ρ)
    (same : (Map.perform (.ofFun f) c heap call).2.2.SameDecisions
      (Map.perform (.ofFun f) d heap' call).2.2) :
    Twins f (Map.perform (.ofFun f) c heap call).2.1 (Map.perform (.ofFun f) c heap call).2.2
      (Map.perform (.ofFun f) d heap' call).2.1 (Map.perform (.ofFun f) d heap' call).2.2
  | multimap {c : Keyed s K V A S} {d : Keyed s.bare K V A S} {heap heap' : Heap A} {ρ : Type}
    (h : Twins f c heap d heap') (call : Multimap.Call K V ρ)
    (same : (Multimap.perform (.ofFun f) c heap call).2.2.SameDecisions
      (Multimap.perform (.ofFun f) d heap' call).2.2) :
    Twins f (Multimap.perform (.ofFun f) c heap call).2.1
      (Multimap.perform (.ofFun f) c heap call).2.2
      (Multimap.perform (.ofFun f) d heap' call).2.1
      (Multimap.perform (.ofFun f) d heap' call).2.2
  | keep {c : Keyed s K V A S} {d : Keyed s.bare K V A S} {heap heap' : Heap A}
    (h : Twins f c heap d heap') (k : K) (v : V)
    (same : (Map.insertIfNew (.ofFun f) c k v heap).2.2.SameDecisions
      (Map.insertIfNew (.ofFun f) d k v heap').2.2) :
    Twins f (Map.insertIfNew (.ofFun f) c k v heap).2.1
      (Map.insertIfNew (.ofFun f) c k v heap).2.2
      (Map.insertIfNew (.ofFun f) d k v heap').2.1
      (Map.insertIfNew (.ofFun f) d k v heap').2.2
  | pop {c : Keyed s K V A S} {d : Keyed s.bare K V A S} {heap heap' : Heap A}
    (h : Twins f c heap d heap') (position : Nat) :
    Twins f (c.pop position heap).2.2.1 (c.pop position heap).2.2.2
      (d.pop position heap').2.2.1 (d.pop position heap').2.2.2
  | setDelegate {c : Keyed s K V A S} {d : Keyed s.bare K V A S} {heap heap' : Heap A}
    (h : Twins f c heap d heap') (delegate : A) :
    Twins f (c.setDelegate delegate).2 heap (d.setDelegate delegate).2 heap'
  /-- The run goes on with the originals. -/
  | copied {c : Keyed s K V A S} {d : Keyed s.bare K V A S} {heap heap' : Heap A}
    (h : Twins f c heap d heap') (same : (c.copy heap).2.SameDecisions (d.copy heap').2) :
    Twins f c (c.copy heap).2 d (d.copy heap').2
  /-- The run goes on with the copies. -/
  | copy {c c' : Keyed s K V A S} {d d' : Keyed s.bare K V A S} {heap heap' later later' : Heap A}
    (h : Twins f c heap d heap') (hc : c.copy heap = (.ok c', later))
    (hd : d.copy heap' = (.ok d', later')) (same : later.SameDecisions later') :
    Twins f c' later d' later'
  /-- Other holders borrow and return, on both heaps alike. -/
  | elsewhere {c : Keyed s K V A S} {d : Keyed s.bare K V A S} {heap heap' later later' : Heap A}
    {others : List (Loan A)} (h : Twins f c heap d heap')
    (hl : later.Lends (c.table.loans c.table.refs ++ others)) (alike : later.Alike s later') :
    Twins f c later d later'

variable {c : Keyed s K V A S} {d : Keyed s.bare K V A S} {heap heap' : Heap A}

theorem Twins.reached (h : Twins f c heap d heap') : Reached f c heap := by
  induction h with
  | new builder delegate hl alike => exact .new builder delegate hl
  | map _ call _ ih => exact ih.step (.map call)
  | multimap _ call _ ih => exact ih.step (.multimap call)
  | keep _ k v _ ih => exact ih.step (.keep k v)
  | pop _ position ih => exact ih.step (.pop position)
  | setDelegate _ delegate ih => exact ih.step (.setDelegate delegate)
  | copied _ _ ih => exact ih.step .copied
  | copy _ hc _ _ ih => exact ih.step (.copy hc)
  | elsewhere _ hl _ ih => exact ih.elsewhere hl

/-- One container is the other without its hashes, and the same has happened on both heaps. -/
theorem Twins.corresponds [EquivBEq K] (hf : Hashing.Faithful f) (h : Twins f c heap d heap') :
    d = c.bare ∧ heap.Alike s heap' := by
  induction h with
  | new builder delegate hl alike => exact ⟨(bare_new builder delegate).symm, alike⟩
  | map h call same ih =>
    obtain ⟨rfl, hk⟩ := ih
    obtain ⟨rows, others, hp⟩ := h.reached.placed hf
    have hm := (hp.map_matches hk hf call same).follows
    exact ⟨hm.state, hm.heap⟩
  | multimap h call same ih =>
    obtain ⟨rfl, hk⟩ := ih
    obtain ⟨rows, others, hp⟩ := h.reached.placed hf
    have hm := (hp.multimap_matches hk hf call same).follows
    exact ⟨hm.state, hm.heap⟩
  | keep h k v same ih =>
    obtain ⟨rfl, hk⟩ := ih
    obtain ⟨rows, others, hp⟩ := h.reached.placed hf
    have hm := (hp.insertIfNew_matches hk hf k v same).follows
    exact ⟨hm.state, hm.heap⟩
  | @pop c d _ _ h position ih =>
    obtain ⟨rfl, hk⟩ := ih
    have hm := (pop_matches hk c position).2.follows
    exact ⟨hm.state, hm.heap⟩
  | @setDelegate c d _ _ h delegate ih =>
    obtain ⟨rfl, hk⟩ := ih
    exact ⟨congrArg Prod.snd (c.setDelegate_bare delegate), hk⟩
  | @copied c d _ _ h same ih =>
    obtain ⟨rfl, hk⟩ := ih
    exact ⟨rfl, (copy_alike hk c same).2⟩
  | @copy c c' d d' _ _ _ _ h hc hd same ih =>
    obtain ⟨rfl, hk⟩ := ih
    have hcopy := copy_alike hk c (by rw [hc, hd]; exact same)
    rw [hc, hd] at hcopy
    obtain ⟨ha, hk'⟩ := hcopy
    cases ha
    exact ⟨rfl, hk'⟩
  | elsewhere h hl alike ih => exact ⟨ih.1, alike⟩

/-! ## Calls on key sets and key bags -/

section

variable {m : Keyed s K Unit A S} {d : Keyed s.bare K Unit A S} (h : Twins f m heap d heap')
  {ρ : Type}
include h

theorem Twins.keySet (call : KeySet.Call K ρ)
    (same : (KeySet.perform (.ofFun f) m heap call).2.2.SameDecisions
      (KeySet.perform (.ofFun f) d heap' call).2.2) :
    Twins f (KeySet.perform (.ofFun f) m heap call).2.1 (KeySet.perform (.ofFun f) m heap call).2.2
      (KeySet.perform (.ofFun f) d heap' call).2.1
      (KeySet.perform (.ofFun f) d heap' call).2.2 := by
  cases call with
  | insert k => exact h.keep k () same
  | replace k => exact h.map (.replace k ()) same
  | get k => exact h.map (.common (.getEntry k)) same
  | contains k => exact h.map (.common (.contains k)) same
  | count k => exact h.map (.count k) same
  | take k => exact h.map (.common (.erase k)) same
  | filter keep state => exact h.map (.common (.filter (KeySet.keepKey keep) state)) same
  | clear => exact h.map (.common .clear) same
  | renew => exact h.map (.common .renew) same
  | abandon => exact h.map (.common .abandon) same
  | setMaxLoad maxLoad => exact h.map (.common (.setMaxLoad maxLoad)) same

theorem Twins.keyBag (call : KeyBag.Call K ρ)
    (same : (KeyBag.perform (.ofFun f) m heap call).2.2.SameDecisions
      (KeyBag.perform (.ofFun f) d heap' call).2.2) :
    Twins f (KeyBag.perform (.ofFun f) m heap call).2.1 (KeyBag.perform (.ofFun f) m heap call).2.2
      (KeyBag.perform (.ofFun f) d heap' call).2.1
      (KeyBag.perform (.ofFun f) d heap' call).2.2 := by
  rw [KeyBag.perform_eq, KeyBag.perform_eq] at *
  exact h.multimap call.onEntries.2.1 same

end

/-! ## Inserting many -/

/-- Two ways of inserting that answer alike on twins and leave twins. -/
structure AlikeInsertions {ι : Type} (f : S → K → UInt64) (insert : Insertion ι (Keyed s K V A S) A)
    (insert' : Insertion ι (Keyed s.bare K V A S) A) : Prop where
  before : ∀ c x (heap : Heap A), heap.Before (insert c x heap).2.2
  before' : ∀ d x (heap : Heap A), heap.Before (insert' d x heap).2.2
  matched : ∀ {c : Keyed s K V A S} {d : Keyed s.bare K V A S} {heap heap' : Heap A},
    Twins f c heap d heap' → ∀ x,
    (insert c x heap).2.2.SameDecisions (insert' d x heap').2.2 →
      AlikeAnswer s (insert c x heap).1 (insert' d x heap').1 ∧
        Twins f (insert c x heap).2.1 (insert c x heap).2.2 (insert' d x heap').2.1
          (insert' d x heap').2.2

/-- Inserting any list of items does so, as far as the requests are decided alike. -/
def InsertManyAlike {ι : Type} (f : S → K → UInt64) (insert : Insertion ι (Keyed s K V A S) A)
    (insert' : Insertion ι (Keyed s.bare K V A S) A) (c : Keyed s K V A S) (heap : Heap A)
    (d : Keyed s.bare K V A S) (heap' : Heap A) : Prop :=
  ∀ items, let out := insertMany insert c items heap
    let out' := insertMany insert' d items heap'
    out.2.2.SameDecisions out'.2.2 →
      AlikeAnswer s out.1 out'.1 ∧ Twins f out.2.1 out.2.2 out'.2.1 out'.2.2

section

variable {ι : Type} {insert : Insertion ι (Keyed s K V A S) A}
  {insert' : Insertion ι (Keyed s.bare K V A S) A}

theorem AlikeInsertions.many (hi : AlikeInsertions f insert insert') (h : Twins f c heap d heap') :
    InsertManyAlike f insert insert' c heap d heap' := by
  intro items out out' same
  simp only [out, out'] at same ⊢
  induction items generalizing c d heap heap' with
  | nil => exact ⟨.ok (), h⟩
  | cons x items ih =>
    obtain ⟨ha, ht⟩ := hi.matched h x (same.of_later (before_insertRest hi.before x items c heap)
      (before_insertRest hi.before' x items d heap'))
    unfold insertMany at same ⊢
    generalize insert c x heap = out, insert' d x heap' = out' at ha ht same ⊢
    obtain ⟨r, c', later⟩ := out
    obtain ⟨r', d', later'⟩ := out'
    cases ha with
    | ok _ => exact ih ht same
    | error he => exact ⟨.error he, ht⟩

end

section

variable [EquivBEq K] (hf : Hashing.Faithful f)
include hf

theorem alikeInsertions_map : AlikeInsertions (s := s) (A := A) f
    (Map.insertion (K := K) (V := V) (.ofFun f)) (Map.insertion (.ofFun f)) where
  before c x heap := before_insert (.ofFun f) c x.1 x.2 heap
  before' d x heap := before_insert (.ofFun f) d x.1 x.2 heap
  matched h x same := by
    obtain ⟨rfl, hk⟩ := h.corresponds hf
    obtain ⟨rows, others, hp⟩ := h.reached.placed hf
    exact ⟨(hp.insert_matches hk hf x.1 x.2 same).answer.map _, h.map (.insert x.1 x.2) same⟩

theorem alikeInsertions_multimap : AlikeInsertions (s := s) (A := A) f
    (Multimap.insertion (K := K) (V := V) (.ofFun f)) (Multimap.insertion (.ofFun f)) where
  before c x heap := before_insertEqual (.ofFun f) c x.1 x.2 heap
  before' d x heap := before_insertEqual (.ofFun f) d x.1 x.2 heap
  matched h x same := by
    obtain ⟨rfl, hk⟩ := h.corresponds hf
    obtain ⟨rows, others, hp⟩ := h.reached.placed hf
    exact ⟨(hp.multimap_matches hk hf (.insert x.1 x.2) same).answer,
      h.multimap (.insert x.1 x.2) same⟩

theorem alikeInsertions_keySet : AlikeInsertions (s := s) (A := A) f
    (KeySet.insertion (K := K) (.ofFun f)) (KeySet.insertion (.ofFun f)) where
  before c k heap := before_insertIfNew (.ofFun f) c k () heap
  before' d k heap := before_insertIfNew (.ofFun f) d k () heap
  matched h k same := by
    obtain ⟨rfl, hk⟩ := h.corresponds hf
    obtain ⟨rows, others, hp⟩ := h.reached.placed hf
    exact ⟨(hp.keySet_matches hk hf (.insert k) same).answer.map _, h.keep k () same⟩

theorem alikeInsertions_keyBag : AlikeInsertions (s := s) (A := A) f
    (KeyBag.insertion (K := K) (.ofFun f)) (KeyBag.insertion (.ofFun f)) where
  before c k heap := before_insertEqual (.ofFun f) c k () heap
  before' d k heap := before_insertEqual (.ofFun f) d k () heap
  matched h k same := (alikeInsertions_multimap hf).matched h (k, ()) same

end

/-! ## Nothing is observed -/

/-- Nothing that can be asked tells the two containers apart. An answer to a call is compared if the
heaps decide the requests of the call alike. -/
structure Indistinguishable (f : S → K → UInt64) (c : Keyed s K V A S) (heap : Heap A)
    (d : Keyed s.bare K V A S) (heap' : Heap A) : Prop where
  toList : c.toList = d.toList
  walk : ∀ limit, c.walk limit c.cursor = d.walk limit d.cursor
  size : c.size = d.size
  bucketCount : c.table.bucketCount = d.table.bucketCount
  bucketOf : ∀ k, c.bucketOf (.ofFun f) k = d.bucketOf (.ofFun f) k
  chainLength : ∀ i, c.table.chainLength i = d.table.chainLength i
  usesOverflow : c.table.usesOverflow = d.table.usesOverflow
  maxLoad : c.table.growth.maxLoad = d.table.growth.maxLoad
  delegate : c.delegate = d.delegate
  /-- Requests and returns so far, in order. -/
  events : List.Forall₂ (Event.Alike s) heap.events heap'.events
  map : ∀ {ρ : Type} (call : Map.Call K V ρ),
    (Map.perform (.ofFun f) c heap call).2.2.SameDecisions
        (Map.perform (.ofFun f) d heap' call).2.2 →
      call.Answers s (Map.perform (.ofFun f) c heap call).1 (Map.perform (.ofFun f) d heap' call).1
  multimap : ∀ {ρ : Type} (call : Multimap.Call K V ρ),
    (Multimap.perform (.ofFun f) c heap call).2.2.SameDecisions
        (Multimap.perform (.ofFun f) d heap' call).2.2 →
      call.Answers s (Multimap.perform (.ofFun f) c heap call).1
        (Multimap.perform (.ofFun f) d heap' call).1
  insertMany : InsertManyAlike f (Map.insertion (.ofFun f)) (Map.insertion (.ofFun f)) c heap d
    heap'
  insertManyEqual : InsertManyAlike f (Multimap.insertion (.ofFun f))
    (Multimap.insertion (.ofFun f)) c heap d heap'
  pop : ∀ position, (c.pop position heap).1 = (d.pop position heap').1 ∧
    (c.pop position heap).2.1 = (d.pop position heap').2.1
  setDelegate : ∀ delegate, (c.setDelegate delegate).1 = (d.setDelegate delegate).1
  copy : (c.copy heap).2.SameDecisions (d.copy heap').2 →
    AlikeAnswer s ((c.copy heap).1.map fun _ => ()) ((d.copy heap').1.map fun _ => ())
  check : c.check (.ofFun f) = d.check (.ofFun f)
  beq : ∀ [BEq V] (a : Keyed s K V A S) (b : Keyed s.bare K V A S) (there there' : Heap A),
    Twins f a there b there' → Map.beq (.ofFun f) c a = Map.beq (.ofFun f) d b ∧
      Multimap.beq (.ofFun f) c a = Multimap.beq (.ofFun f) d b
  /-- The blocks that are returned when the containers are gone. -/
  dispose : (c.dispose heap).Alike s (d.dispose heap')

/-- The same of calls on key sets and key bags, which leave twins again. -/
structure KeysIndistinguishable (f : S → K → UInt64) (m : Keyed s K Unit A S) (heap : Heap A)
    (d : Keyed s.bare K Unit A S) (heap' : Heap A) : Prop where
  keySet : ∀ {ρ : Type} (call : KeySet.Call K ρ),
    let out := KeySet.perform (.ofFun f) m heap call
    let out' := KeySet.perform (.ofFun f) d heap' call
    out.2.2.SameDecisions out'.2.2 →
      call.Answers s out.1 out'.1 ∧ Twins f out.2.1 out.2.2 out'.2.1 out'.2.2
  keyBag : ∀ {ρ : Type} (call : KeyBag.Call K ρ),
    let out := KeyBag.perform (.ofFun f) m heap call
    let out' := KeyBag.perform (.ofFun f) d heap' call
    out.2.2.SameDecisions out'.2.2 →
      call.Answers s out.1 out'.1 ∧ Twins f out.2.1 out.2.2 out'.2.1 out'.2.2
  insertMany : InsertManyAlike f (KeySet.insertion (.ofFun f)) (KeySet.insertion (.ofFun f)) m heap
    d heap'
  insertManyEqual : InsertManyAlike f (KeyBag.insertion (.ofFun f)) (KeyBag.insertion (.ofFun f)) m
    heap d heap'
  beq : ∀ (a : Keyed s K Unit A S) (b : Keyed s.bare K Unit A S) (there there' : Heap A),
    Twins f a there b there' → KeySet.beq (.ofFun f) m a = KeySet.beq (.ofFun f) d b ∧
      KeyBag.beq (.ofFun f) m a = KeyBag.beq (.ofFun f) d b

section

variable [EquivBEq K] (hf : Hashing.Faithful f)
include hf

theorem Twins.indistinguishable (h : Twins f c heap d heap') :
    c.Indistinguishable f heap d heap' := by
  obtain ⟨rfl, hk⟩ := h.corresponds hf
  obtain ⟨rows, others, hp⟩ := h.reached.placed hf
  exact
    { toList := c.toList_bare.symm
      walk := fun limit => (c.walk_bare limit c.cursor).symm
      size := rfl
      bucketCount := rfl
      bucketOf := fun _ => rfl
      chainLength := fun i => congrArg List.length (c.table.chain_bare i).symm
      usesOverflow := rfl
      maxLoad := rfl
      delegate := rfl
      events := hk.events
      map := fun call same => (hp.map_matches hk hf call same).answer
      multimap := fun call same => (hp.multimap_matches hk hf call same).answer
      insertMany := (alikeInsertions_map hf).many h
      insertManyEqual := (alikeInsertions_multimap hf).many h
      pop := fun position =>
        ⟨(pop_matches hk c position).1.symm, (pop_matches hk c position).2.answer⟩
      setDelegate := fun delegate => congrArg Prod.fst (c.setDelegate_bare delegate).symm
      copy := fun same => by
        have ha := (copy_alike hk c same).1.map fun _ => ()
        rcases hr : (c.copy heap).1 with _ | _ <;> rw [hr] at ha <;> exact ha
      check := hp.inPlace.check.trans (Table.check_bare hp.inPlace.check).symm
      beq := fun a b there there' ht => by
        obtain ⟨rfl, -⟩ := ht.corresponds hf
        obtain ⟨rows', others', ha⟩ := ht.reached.placed hf
        exact ⟨(mapBeq_bare hf c ha).symm, (multimapBeq_bare hf hp ha).symm⟩
      dispose := c.table.dispose_alike hk }

theorem Twins.keysIndistinguishable {m : Keyed s K Unit A S} {d : Keyed s.bare K Unit A S}
    (h : Twins f m heap d heap') : m.KeysIndistinguishable f heap d heap' := by
  obtain ⟨rfl, hk⟩ := h.corresponds hf
  obtain ⟨rows, others, hp⟩ := h.reached.placed hf
  exact
    { keySet := fun call same => ⟨(hp.keySet_matches hk hf call same).answer, h.keySet call same⟩
      keyBag := fun call same => ⟨(hp.keyBag_matches hk hf call same).answer, h.keyBag call same⟩
      insertMany := (alikeInsertions_keySet hf).many h
      insertManyEqual := (alikeInsertions_keyBag hf).many h
      beq := fun a b there there' ht => by
        obtain ⟨rfl, -⟩ := ht.corresponds hf
        obtain ⟨rows', others', ha⟩ := ht.reached.placed hf
        exact ⟨(keySetBeq_bare hf m ha).symm, (keyBagBeq_bare hf hp ha).symm⟩ }

end

/-- Whether nodes keep the hashes of their keys is not observed, neither by the callers of a
container nor, but for the size of a node, by its overflow allocator. -/
theorem stored_hashes_unobserved [EquivBEq K] (hf : Hashing.Faithful f) :
    (∀ (c : Keyed s K V A S) (heap : Heap A) (d : Keyed s.bare K V A S) (heap' : Heap A),
      Twins f c heap d heap' → c.Indistinguishable f heap d heap') ∧
    ∀ (m : Keyed s K Unit A S) (heap : Heap A) (d : Keyed s.bare K Unit A S) (heap' : Heap A),
      Twins f m heap d heap' → m.KeysIndistinguishable f heap d heap' :=
  ⟨fun _ _ _ _ h => h.indistinguishable hf, fun _ _ _ _ h => h.keysIndistinguishable hf⟩

/-- The node of the second entry is refused to both, with the size that it would have. -/
theorem refused_twins_indistinguishable :
    let heap : Heap Lender := { serves := fun _ _ _ => false }
    let c : Map .lax Nat Char Lender Unit := .new () .plain
    let d : Map Table.Shape.lax.bare Nat Char Lender Unit := .new () .plain
    let (_, c, heapc) := Map.perform (.ofFun hashByParity) c heap (.insert 1 'a')
    let (_, d, heapd) := Map.perform (.ofFun hashByParity) d heap (.insert 1 'a')
    let (answer, c, heapc) := Map.perform (.ofFun hashByParity) c heapc (.insert 2 'b')
    let (answer', d, heapd) := Map.perform (.ofFun hashByParity) d heapd (.insert 2 'b')
    answer = .error (.refused "overflow" 32 8) ∧ answer' = .error (.refused "overflow" 24 8) ∧
      c.Indistinguishable hashByParity heapc d heapd := by
  have h : Twins (s := .lax) hashByParity _ _ _ _ :=
    ((Twins.new () Lender.plain (Heap.lends_nil fun _ _ _ => false) ⟨.nil, rfl⟩).map
      (.insert 1 'a') (.inl List.suffix_rfl)).map (.insert 2 'b') (.inl List.suffix_rfl)
  exact ⟨rfl, rfl, (stored_hashes_unobserved faithful_hashByParity).1 _ _ _ _ h⟩

end ArenaHash.Keyed
