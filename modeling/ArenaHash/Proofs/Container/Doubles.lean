import ArenaHash.Proofs.Caching.Containers
import ArenaHash.Proofs.Container.Views

/-!
# Copies behave like their originals

`Doubles` are two containers that come from one by copying and have come through the same operations
since, each on a heap that refused none of their requests. The slots of a copy are numbered anew,
its free slots are others, and it may have fewer nodes in overflow memory, so the two may put the
same entry into different memory. But their views are equal (`Doubles.view_eq`), and views say what
operations answer: nothing that can be asked, now or after any further operations, tells the two
apart, but how much overflow memory is in use and whether another allocator is accepted for it.

Each of the two has its own heap, as in between anything may happen to what is not theirs. That two
containers on one heap are such a case is shown by `SideBySide`.
-/

namespace ArenaHash

variable {s : Table.Shape} {K V A S : Type} [BEq K] [Allocator A] {f : S → K → UInt64}

/-! ## Operations -/

/-- What can be done to a container, with the type of the answer. -/
inductive Operation (K V A : Type) : Type → Type 1 where
  | map {ρ : Type} (call : Map.Call K V ρ) : Operation K V A ρ
  | multimap {ρ : Type} (call : Multimap.Call K V ρ) : Operation K V A ρ
  /-- Adds a key as key sets do. -/
  | keep (k : K) (v : V) : Operation K V A (Except MemoryError Bool)
  | pop (position : Nat) : Operation K V A (Option (K × V) × Nat)
  /-- Offers another allocator. Whether it is accepted depends on the memory in use. -/
  | setDelegate (delegate : A) : Operation K V A Unit
  /-- Makes a copy and goes on with the original. -/
  | copied : Operation K V A (Except MemoryError Unit)
  /-- Makes a copy and goes on with it. -/
  | copy : Operation K V A (Except MemoryError Unit)

namespace Operation

variable {ρ : Type}

def perform (f : S → K → UInt64) (c : Keyed s K V A S) (heap : Heap A) :
    Operation K V A ρ → ρ × Keyed s K V A S × Heap A
  | .map call => Map.perform (.ofFun f) c heap call
  | .multimap call => Multimap.perform (.ofFun f) c heap call
  | .keep k v =>
    let (result, c, heap) := Map.insertIfNew (.ofFun f) c k v heap
    (result.map Prod.snd, c, heap)
  | .pop position =>
    let (entry, i, c, heap) := c.pop position heap
    ((entry, i), c, heap)
  | .setDelegate delegate => ((), (c.setDelegate delegate).2, heap)
  | .copied =>
    let (result, heap) := c.copy heap
    (result.map fun _ => (), c, heap)
  | .copy =>
    let (result, heap) := c.copy heap
    (result.map fun _ => (), result.toOption.getD c, heap)

/-- No request of an operation is refused. -/
def Unrefused (f : S → K → UInt64) (c : Keyed s K V A S) (heap : Heap A)
    (op : Operation K V A ρ) : Prop :=
  heap.refusalSince (op.perform f c heap).2.2 = none

/-- What the operation answers and leaves if no request is refused, for a container that is seen
like this. -/
def onView (s : Table.Shape) (f : S → K → UInt64) (v : View K V S) :
    Operation K V A ρ → ρ × View K V S
  | .map call => v.map s f call
  | .multimap call => v.multimap s f call
  | .keep k x => v.keep s f k x
  | .pop position => v.pop f position
  | .setDelegate _ => ((), v)
  | .copied | .copy => (.ok (), v)

theorem step (c : Keyed s K V A S) (heap : Heap A) (op : Operation K V A ρ) :
    c.Step f heap (op.perform f c heap).2.1 (op.perform f c heap).2.2 := by
  cases op with
  | map call => exact .map call
  | multimap call => exact .multimap call
  | keep k v => exact .keep k v
  | pop position => exact .pop position
  | setDelegate delegate => exact .setDelegate delegate
  | copied => exact .copied
  | copy =>
    have hcopied : c.Step f heap c (c.copy heap).2 := .copied
    unfold perform
    rcases hr : c.copy heap with ⟨e | d, later⟩
    · rw [hr] at hcopied
      exact hcopied
    · exact .copy hr

end Operation

namespace Keyed

variable {c d : Keyed s K V A S} {heap heap' later : Heap A}

/-! ## Operations and views -/

section

variable {rows : Rows (K × V)} {others : List (Loan A)} (h : c.Placed f heap rows others)
include h

omit [BEq K] in
/-- A copy is seen like the original. -/
theorem Placed.view_copy (hr : c.copy heap = (.ok d, later)) : d.view = c.view := by
  obtain ⟨rows', hb⟩ := h.becomes_copy hr
  obtain ⟨t', hr', rfl⟩ := table_copy_of_ok hr
  exact hb.view (h.stores.samePlan_copy hr')

omit [BEq K] in
theorem Placed.copy_unrefused (hr : heap.refusalSince (c.copy heap).2 = none) :
    ∃ d, c.copy heap = (.ok d, (c.copy heap).2) := by
  rw [copy_heap] at hr ⊢
  obtain ⟨t', hcopy⟩ := h.stores.copy_unrefused hr
  refine ⟨{ c with table := t' }, ?_⟩
  unfold Keyed.copy
  rw [hcopy]

end

theorem Reached.agrees [EquivBEq K] (hf : Hashing.Faithful f) (h : Reached f c heap) {ρ : Type}
    (op : Operation K V A ρ) (hr : op.Unrefused f c heap) :
    View.Agrees (op.onView s f c.view) (op.perform f c heap) := by
  obtain ⟨rows, others, hp⟩ := h.placed hf
  have ht := h.tuned hf
  cases op with
  | map call => exact hp.agrees_map hf ht call hr
  | multimap call => exact hp.agrees_multimap hf ht call hr
  | keep k v => exact hp.agrees_keep hf ht k v hr
  | pop position => exact hp.agrees_pop position
  | setDelegate delegate =>
    exact ⟨rfl, (hp.becomes_setDelegate delegate).view (.setDelegate _ delegate)⟩
  | copied =>
    obtain ⟨d, hcopy⟩ := hp.copy_unrefused hr
    unfold Operation.perform
    rw [hcopy]
    exact ⟨rfl, rfl⟩
  | copy =>
    obtain ⟨d, hcopy⟩ := hp.copy_unrefused hr
    unfold Operation.perform
    rw [hcopy]
    exact ⟨rfl, hp.view_copy hcopy⟩

/-! ## Doubles -/

/-- Containers that come from one by copying and have come through the same operations since, none
of whose requests was refused. -/
inductive Doubles (f : S → K → UInt64) :
    Keyed s K V A S → Heap A → Keyed s K V A S → Heap A → Prop where
  | self {c : Keyed s K V A S} {heap : Heap A} (h : Reached f c heap) : Doubles f c heap c heap
  | copied {c d : Keyed s K V A S} {heap later : Heap A} (h : Reached f c heap)
    (hr : c.copy heap = (.ok d, later)) : Doubles f c later d later
  | operation {c d : Keyed s K V A S} {heap heap' : Heap A} {ρ : Type}
    (h : Doubles f c heap d heap') (op : Operation K V A ρ) (hc : op.Unrefused f c heap)
    (hd : op.Unrefused f d heap') :
    Doubles f (op.perform f c heap).2.1 (op.perform f c heap).2.2
      (op.perform f d heap').2.1 (op.perform f d heap').2.2
  /-- On either heap, other holders borrow and return. -/
  | elsewhere {c d : Keyed s K V A S} {heap heap' later later' : Heap A}
    {others others' : List (Loan A)} (h : Doubles f c heap d heap')
    (hc : later.Lends (c.table.loans c.table.refs ++ others))
    (hd : later'.Lends (d.table.loans d.table.refs ++ others')) : Doubles f c later d later'
  | symm {c d : Keyed s K V A S} {heap heap' : Heap A} (h : Doubles f c heap d heap') :
    Doubles f d heap' c heap
  | trans {c d e : Keyed s K V A S} {heap heap' heap'' : Heap A}
    (h : Doubles f c heap d heap') (h' : Doubles f d heap' e heap'') : Doubles f c heap e heap''

theorem Doubles.reached (h : Doubles f c heap d heap') : Reached f c heap ∧ Reached f d heap' := by
  induction h with
  | self h => exact ⟨h, h⟩
  | @copied c d heap later h hr =>
    have hcopied : c.Step f heap c (c.copy heap).2 := .copied
    rw [hr] at hcopied
    exact ⟨h.step hcopied, h.step (.copy hr)⟩
  | operation _ op _ _ ih => exact ⟨ih.1.step (op.step _ _), ih.2.step (op.step _ _)⟩
  | elsewhere _ hc hd ih => exact ⟨ih.1.elsewhere hc, ih.2.elsewhere hd⟩
  | symm _ ih => exact ih.symm
  | trans _ _ ih ih' => exact ⟨ih.1, ih'.2⟩

variable [EquivBEq K] (hf : Hashing.Faithful f)
include hf

theorem Doubles.view_eq (h : Doubles f c heap d heap') : c.view = d.view := by
  induction h with
  | self h => rfl
  | copied h hr =>
    obtain ⟨rows, others, hp⟩ := h.placed hf
    exact (hp.view_copy hr).symm
  | operation h op hc hd ih =>
    obtain ⟨hreached, hreached'⟩ := h.reached
    rw [(hreached.agrees hf op hc).2, (hreached'.agrees hf op hd).2, ih]
  | elsewhere _ _ _ ih => exact ih
  | symm _ ih => exact ih.symm
  | trans _ _ ih ih' => exact ih.trans ih'

theorem Doubles.answer_eq (h : Doubles f c heap d heap') {ρ : Type} (op : Operation K V A ρ)
    (hc : op.Unrefused f c heap) (hd : op.Unrefused f d heap') :
    (op.perform f c heap).1 = (op.perform f d heap').1 := by
  obtain ⟨hreached, hreached'⟩ := h.reached
  rw [(hreached.agrees hf op hc).1, (hreached'.agrees hf op hd).1, h.view_eq hf]

/-! ## Inserting many -/

/-- Each item is inserted by one operation, of whose answer it is shown whether it is an error. -/
structure ByOperations {ι : Type} (f : S → K → UInt64)
    (insert : Insertion ι (Keyed s K V A S) A) : Prop where
  operation : ∀ x, ∃ (ρ : Type) (op : Operation K V A (Except MemoryError ρ)),
    ∀ (c : Keyed s K V A S) (heap : Heap A),
      insert c x heap = ((op.perform f c heap).1.map fun _ => (), (op.perform f c heap).2)
  before : ∀ c x (heap : Heap A), heap.Before (insert c x heap).2.2

/-- Inserting any list of items comes to the same and leaves doubles, if no request is refused. -/
def InsertManySame {ι : Type} (f : S → K → UInt64) (insert : Insertion ι (Keyed s K V A S) A)
    (c : Keyed s K V A S) (heap : Heap A) (d : Keyed s K V A S) (heap' : Heap A) : Prop :=
  ∀ items, let out := insertMany insert c items heap
    let out' := insertMany insert d items heap'
    heap.refusalSince out.2.2 = none → heap'.refusalSince out'.2.2 = none →
      out.1 = out'.1 ∧ Doubles f out.2.1 out.2.2 out'.2.1 out'.2.2

theorem ByOperations.many {ι : Type} {insert : Insertion ι (Keyed s K V A S) A}
    (hi : ByOperations f insert) (h : Doubles f c heap d heap') :
    InsertManySame f insert c heap d heap' := by
  intro items out out' hr hr'
  simp only [out, out'] at hr hr' ⊢
  induction items generalizing c d heap heap' with
  | nil => exact ⟨rfl, h⟩
  | cons x items ih =>
    obtain ⟨hx, hrest⟩ :=
      (hi.before c x heap).unrefused (before_insertRest hi.before x items c heap) hr
    obtain ⟨hx', hrest'⟩ :=
      (hi.before d x heap').unrefused (before_insertRest hi.before x items d heap') hr'
    obtain ⟨ρ, op, hop⟩ := hi.operation x
    unfold insertMany at hrest hrest' ⊢
    rw [hop] at hx hx' hrest hrest'
    rw [hop, hop]
    have hnext := h.operation op hx hx'
    have hanswer := h.answer_eq hf op hx hx'
    generalize op.perform f c heap = out, op.perform f d heap' = out' at *
    obtain ⟨r, c', later⟩ := out
    obtain ⟨r', d', later'⟩ := out'
    obtain rfl : r = r' := hanswer
    cases r with
    | ok a => exact ih hnext hrest hrest'
    | error e => exact ⟨rfl, hnext⟩

omit hf [EquivBEq K]

theorem byOperations_map : ByOperations (s := s) (A := A) f
    (Map.insertion (K := K) (V := V) (.ofFun f)) where
  operation x := ⟨_, .map (.insert x.1 x.2), fun _ _ => rfl⟩
  before c x heap := before_insert (.ofFun f) c x.1 x.2 heap

theorem byOperations_keySet : ByOperations (s := s) (A := A) f
    (KeySet.insertion (K := K) (.ofFun f)) where
  operation k := ⟨_, .keep k (), fun _ _ => rfl⟩
  before c k heap := before_insertIfNew (.ofFun f) c k () heap

theorem byOperations_multimap : ByOperations (s := s) (A := A) f
    (Multimap.insertion (K := K) (V := V) (.ofFun f)) where
  operation x := by
    refine ⟨_, .multimap (.insert x.1 x.2), fun c heap => ?_⟩
    change Multimap.insert (.ofFun f) c x.1 x.2 heap = _
    simp only [Operation.perform, Multimap.perform]
    rcases Multimap.insert (.ofFun f) c x.1 x.2 heap with ⟨_ | _, _⟩ <;> rfl
  before c x heap := before_insertEqual (.ofFun f) c x.1 x.2 heap

theorem byOperations_keyBag : ByOperations (s := s) (A := A) f
    (KeyBag.insertion (K := K) (.ofFun f)) where
  operation k := (byOperations_multimap (f := f)).operation (k, ())
  before c k heap := before_insertEqual (.ofFun f) c k () heap

end Keyed

/-! ## Calls on key sets and key bags -/

/-- The operation on a map, and what is shown of its answer. -/
def KeySet.Call.operation {ρ : Type} :
    KeySet.Call K ρ → (σ : Type) × Operation K Unit A σ × (σ → ρ)
  | .insert k => ⟨_, .keep k (), id⟩
  | .replace k => ⟨_, .map (.replace k ()), fun result => result.map (·.map Prod.fst)⟩
  | .get k => ⟨_, .map (.common (.getEntry k)), fun entry => entry.map Prod.fst⟩
  | .contains k => ⟨_, .map (.common (.contains k)), id⟩
  | .count k => ⟨_, .map (.count k), id⟩
  | .take k => ⟨_, .map (.common (.erase k)), fun entry => entry.map Prod.fst⟩
  | .filter keep state => ⟨_, .map (.common (.filter (KeySet.keepKey keep) state)), id⟩
  | .clear => ⟨_, .map (.common .clear), id⟩
  | .renew => ⟨_, .map (.common .renew), id⟩
  | .abandon => ⟨_, .map (.common .abandon), id⟩
  | .setMaxLoad maxLoad => ⟨_, .map (.common (.setMaxLoad maxLoad)), id⟩

theorem KeySet.perform_operation (m : KeySet s K A S) (heap : Heap A) {ρ : Type}
    (call : KeySet.Call K ρ) :
    KeySet.perform (.ofFun f) m heap call =
      (call.operation.2.2 (call.operation.2.1.perform f m heap).1,
        (call.operation.2.1.perform f m heap).2) := by
  cases call <;> rfl

namespace Keyed

variable {c d : Keyed s K V A S} {heap heap' : Heap A}

/-! ## What cannot be told apart -/

/-- Nothing that can be asked tells the two containers apart; answers to what may request memory
are compared if no request is refused. -/
structure Interchangeable (f : S → K → UInt64) (c : Keyed s K V A S) (heap : Heap A)
    (d : Keyed s K V A S) (heap' : Heap A) : Prop where
  toList : c.toList = d.toList
  walk : ∀ limit, c.walk limit c.cursor = d.walk limit d.cursor
  walkRun : ∀ k limit, c.walkRun limit (c.runCursor (.ofFun f) k) =
    d.walkRun limit (d.runCursor (.ofFun f) k)
  size : c.size = d.size
  bucketCount : c.table.bucketCount = d.table.bucketCount
  bucketOf : ∀ k, c.bucketOf (.ofFun f) k = d.bucketOf (.ofFun f) k
  /-- Each chain has the same entries with the same stored hashes. -/
  chain : ∀ i, (c.table.chain i).map c.table.contentAt = (d.table.chain i).map d.table.contentAt
  /-- The largest load factor, and the size up to which no larger bucket array is asked for. -/
  growth : c.table.growth = d.table.growth
  loadFactor : c.table.loadFactor = d.table.loadFactor
  check : c.check (.ofFun f) = d.check (.ofFun f)
  operation : ∀ {ρ : Type} (op : Operation K V A ρ), op.Unrefused f c heap →
    op.Unrefused f d heap' → (op.perform f c heap).1 = (op.perform f d heap').1
  insertMany : InsertManySame f (Map.insertion (.ofFun f)) c heap d heap'
  insertManyEqual : InsertManySame f (Multimap.insertion (.ofFun f)) c heap d heap'
  beq : ∀ [BEq V] (a b : Keyed s K V A S) (there there' : Heap A), Doubles f a there b there' →
    Map.beq (.ofFun f) c a = Map.beq (.ofFun f) d b ∧
      Multimap.beq (.ofFun f) c a = Multimap.beq (.ofFun f) d b

/-- The same of calls on key sets and key bags, which leave doubles again. -/
structure KeysInterchangeable (f : S → K → UInt64) (m : Keyed s K Unit A S) (heap : Heap A)
    (d : Keyed s K Unit A S) (heap' : Heap A) : Prop where
  keySet : ∀ {ρ : Type} (call : KeySet.Call K ρ),
    let out := KeySet.perform (.ofFun f) m heap call
    let out' := KeySet.perform (.ofFun f) d heap' call
    heap.refusalSince out.2.2 = none → heap'.refusalSince out'.2.2 = none →
      out.1 = out'.1 ∧ Doubles f out.2.1 out.2.2 out'.2.1 out'.2.2
  keyBag : ∀ {ρ : Type} (call : KeyBag.Call K ρ),
    let out := KeyBag.perform (.ofFun f) m heap call
    let out' := KeyBag.perform (.ofFun f) d heap' call
    heap.refusalSince out.2.2 = none → heap'.refusalSince out'.2.2 = none →
      out.1 = out'.1 ∧ Doubles f out.2.1 out.2.2 out'.2.1 out'.2.2
  insertMany : InsertManySame f (KeySet.insertion (.ofFun f)) m heap d heap'
  insertManyEqual : InsertManySame f (KeyBag.insertion (.ofFun f)) m heap d heap'
  beq : ∀ (a b : Keyed s K Unit A S) (there there' : Heap A), Doubles f a there b there' →
    KeySet.beq (.ofFun f) m a = KeySet.beq (.ofFun f) d b ∧
      KeyBag.beq (.ofFun f) m a = KeyBag.beq (.ofFun f) d b

section

variable [EquivBEq K] (hf : Hashing.Faithful f)
include hf

section

variable (h : Doubles f c heap d heap')
include h

theorem Doubles.toList_eq : c.toList = d.toList := congrArg View.entries (h.view_eq hf)

theorem Doubles.size_eq : c.size = d.size := by
  obtain ⟨⟨rows, others, hp⟩, rows', others', hp'⟩ :=
    And.intro (h.reached.1.placed hf) (h.reached.2.placed hf)
  rw [hp.size_eq, hp'.size_eq, h.toList_eq hf]

/-- A question that touches no memory is answered alike. -/
theorem Doubles.ask {ρ : Type} (op : Operation K V A ρ)
    (hsilent : ∀ (c : Keyed s K V A S) (heap : Heap A), (op.perform f c heap).2.2 = heap) :
    (op.perform f c heap).1 = (op.perform f d heap').1 := by
  have hself : ∀ (c : Keyed s K V A S) (heap : Heap A), op.Unrefused f c heap := by
    intro c heap
    rw [Operation.Unrefused, hsilent]
    exact (Heap.Continues.refl heap).refusalSince
  exact h.answer_eq hf op (hself c heap) (hself d heap')

theorem Doubles.get?_eq (k : K) : c.get? (.ofFun f) k = d.get? (.ofFun f) k :=
  h.ask hf (.map (.common (.get k))) fun _ _ => rfl

theorem Doubles.contains_eq (k : K) : c.contains (.ofFun f) k = d.contains (.ofFun f) k :=
  h.ask hf (.map (.common (.contains k))) fun _ _ => rfl

theorem Doubles.count_eq (k : K) : c.count (.ofFun f) k = d.count (.ofFun f) k :=
  h.ask hf (.multimap (.count k)) fun _ _ => rfl

theorem Doubles.getAll_eq (k : K) :
    Multimap.getAll (.ofFun f) c k = Multimap.getAll (.ofFun f) d k :=
  congrArg _ (h.ask hf (.multimap (.equalRun k)) fun _ _ => rfl)

theorem Doubles.interchangeable : c.Interchangeable f heap d heap' := by
  have hview := h.view_eq hf
  have hcount : c.table.bucketCount = d.table.bucketCount := congrArg View.bucketCount hview
  have hbuilder : c.builder = d.builder := congrArg View.builder hview
  obtain ⟨rows, others, hp⟩ := h.reached.1.placed hf
  obtain ⟨rows', others', hp'⟩ := h.reached.2.placed hf
  exact
    { toList := h.toList_eq hf
      walk := fun limit => by rw [hp.walk_view, hp'.walk_view, hview]
      walkRun := fun k limit => by rw [hp.walkRun_view hf, hp'.walkRun_view hf, hview]
      size := h.size_eq hf
      bucketCount := hcount
      bucketOf := fun k => congrArg (View.bucketOf f · k) hview
      chain := fun i => by rw [hp.chain_view, hp'.chain_view, hview, hbuilder]
      growth := congrArg View.growth hview
      loadFactor := by
        have hsize : c.table.size = d.table.size := h.size_eq hf
        rw [Table.loadFactor, Table.loadFactor, hsize, hcount]
      check := hp.inPlace.check.trans hp'.inPlace.check.symm
      operation := h.answer_eq hf
      insertMany := byOperations_map.many hf h
      insertManyEqual := byOperations_multimap.many hf h
      beq := fun a b there there' hab => by
        simp only [Map.beq, Multimap.beq, h.size_eq hf, hab.size_eq hf, h.toList_eq hf,
          hab.get?_eq hf, h.getAll_eq hf, hab.getAll_eq hf, and_self] }

end

theorem Doubles.keysInterchangeable {m d : Keyed s K Unit A S} (h : Doubles f m heap d heap') :
    m.KeysInterchangeable f heap d heap' where
  keySet call := by
    intro out out' hr hr'
    simp only [out, out', KeySet.perform_operation] at hr hr' ⊢
    have hanswer := h.answer_eq hf call.operation.2.1 hr hr'
    exact ⟨congrArg call.operation.2.2 hanswer, h.operation call.operation.2.1 hr hr'⟩
  keyBag call := by
    intro out out' hr hr'
    simp only [out, out', KeyBag.perform_eq] at hr hr' ⊢
    have hanswer := h.answer_eq hf (.multimap call.onEntries.2.1) hr hr'
    exact ⟨congrArg call.onEntries.2.2 hanswer, h.operation (.multimap call.onEntries.2.1) hr hr'⟩
  insertMany := byOperations_keySet.many hf h
  insertManyEqual := byOperations_keyBag.many hf h
  beq a b there there' hab := by
    simp only [KeySet.beq, KeyBag.beq, h.size_eq hf, hab.size_eq hf, h.toList_eq hf,
      hab.contains_eq hf, h.count_eq hf, hab.count_eq hf, and_self]

end

/-! ## On one heap -/

/-- A container and its copy on one heap. Every operation is made on the container and then on the
copy, and in between others borrow and return. -/
inductive SideBySide (f : S → K → UInt64) : Keyed s K V A S → Keyed s K V A S → Heap A → Prop where
  | copied {c d : Keyed s K V A S} {heap later : Heap A} (h : Reached f c heap)
    (hr : c.copy heap = (.ok d, later)) : SideBySide f c d later
  | operation {c c' d d' : Keyed s K V A S} {heap middle later : Heap A} {ρ : Type} {r r' : ρ}
    (h : SideBySide f c d heap) (op : Operation K V A ρ)
    (hc : op.perform f c heap = (r, c', middle)) (hd : op.perform f d middle = (r', d', later))
    (served : op.Unrefused f c heap) (served' : op.Unrefused f d middle) : SideBySide f c' d' later
  | elsewhere {c d : Keyed s K V A S} {heap later : Heap A} {others : List (Loan A)}
    (h : SideBySide f c d heap)
    (hl : later.Lends (c.table.loans c.table.refs ++ (d.table.loans d.table.refs ++ others))) :
    SideBySide f c d later

/-- An operation on a container leaves what others hold lent to them. -/
theorem Reached.lends_step [EquivBEq K] (hf : Hashing.Faithful f) {c' : Keyed s K V A S}
    {others : List (Loan A)} (h : Reached f c heap) (hs : c.Step f heap c' heap')
    (hl : heap.Lends (c.table.loans c.table.refs ++ others)) :
    ∃ more, heap'.Lends (c'.table.loans c'.table.refs ++ (more ++ others)) := by
  obtain ⟨rows, others', hp⟩ := h.placed hf
  obtain ⟨rows', more, hp'⟩ := hs.placed (hp.elsewhere hl) hf
  exact ⟨more, hp'.stores.lends⟩

theorem SideBySide.doubles [EquivBEq K] (hf : Hashing.Faithful f) (h : SideBySide f c d heap) :
    Doubles f c heap d heap ∧ ∃ others,
      heap.Lends (c.table.loans c.table.refs ++ (d.table.loans d.table.refs ++ others)) := by
  induction h with
  | @copied c d heap later h hr =>
    refine ⟨.copied h hr, ?_⟩
    obtain ⟨rows, others, hp⟩ := h.placed hf
    obtain ⟨rows', hb⟩ := hp.becomes_copy hr
    exact ⟨others, hb.placed.stores.lends.perm (List.perm_append_comm_assoc _ _ _)⟩
  | @operation c c' d d' heap middle later ρ r r' h op hc hd served served' ih =>
    obtain ⟨hdoubles, others, hl⟩ := ih
    have hthird : ∀ v w x y : List (Loan A), (v ++ (w ++ (x ++ y))).Perm (x ++ (v ++ (w ++ y))) :=
      fun v w x y => ((List.perm_append_comm_assoc w x y).append_left v).trans
        (List.perm_append_comm_assoc v x _)
    obtain ⟨hreached, hreached'⟩ := hdoubles.reached
    have hstep : c.Step f heap c' middle := by
      have hs := op.step (f := f) c heap
      rwa [hc] at hs
    obtain ⟨more, hmiddle⟩ := hreached.lends_step hf hstep hl
    have hl' := hmiddle.perm (hthird _ more _ others)
    have hstep' : d.Step f middle d' later := by
      have hs := op.step (f := f) d middle
      rwa [hd] at hs
    obtain ⟨more', hlater⟩ := (hreached'.elsewhere hl').lends_step hf hstep' hl'
    have hlater' := hlater.perm (hthird _ more' _ (more ++ others))
    have hnext := (hdoubles.elsewhere hl hl').operation op served served'
    rw [hc, hd] at hnext
    exact ⟨hnext.elsewhere hlater' hlater, _, hlater'⟩
  | elsewhere h hl ih =>
    exact ⟨ih.1.elsewhere hl (hl.perm (List.perm_append_comm_assoc _ _ _)), _, hl⟩

/-- A copy and its original, and whatever becomes of them by the same operations while no request is
refused, cannot be told apart. On one heap they are doubles from the moment of copying on. -/
theorem copies_interchangeable [EquivBEq K] (hf : Hashing.Faithful f) :
    (∀ (c d : Keyed s K V A S) (heap heap' : Heap A), Doubles f c heap d heap' →
      c.Interchangeable f heap d heap') ∧
    (∀ (m d : Keyed s K Unit A S) (heap heap' : Heap A), Doubles f m heap d heap' →
      m.KeysInterchangeable f heap d heap') ∧
    ∀ (c d : Keyed s K V A S) (heap : Heap A), SideBySide f c d heap → Doubles f c heap d heap :=
  ⟨fun _ _ _ _ h => h.interchangeable hf, fun _ _ _ _ h => h.keysInterchangeable hf,
    fun _ _ _ h => (h.doubles hf).1⟩

/-- The copy puts the one entry that is left into its inline slot. -/
theorem copy_of_spilled_interchangeable :
    let heap : Heap Lender := { serves := fun _ _ _ => true }
    let m : Map .lax Nat Char Lender Unit := .new () .plain
    let (_, m, heap) := Map.perform (.ofFun hashByParity) m heap (.insert 1 'a')
    let (_, m, heap) := Map.perform (.ofFun hashByParity) m heap (.insert 2 'b')
    let (_, m, heap) := Map.perform (.ofFun hashByParity) m heap (.common (.erase 1))
    let insertion : Operation Nat Char Lender (Except MemoryError (Option Char)) :=
      .map (.insert 4 'c')
    ∃ d later, m.copy heap = (.ok d, later) ∧ m.table.usesOverflow = true ∧
      d.table.usesOverflow = false ∧ m.Interchangeable hashByParity later d later ∧
      let (answer, m', later) := insertion.perform hashByParity m later
      let (answer', d', later) := insertion.perform hashByParity d later
      answer = .ok none ∧ answer' = .ok none ∧ m'.toList = [(4, 'c'), (2, 'b')] ∧
        m'.Interchangeable hashByParity later d' later := by
  have h : Reached (s := .lax) hashByParity _ _ :=
    (((Reached.new () Lender.plain (Heap.lends_nil fun _ _ _ => true)).step
      (.map (.insert 1 'a'))).step (.map (.insert 2 'b'))).step (.map (.common (.erase 1)))
  obtain ⟨hsame, -, hshared⟩ :=
    copies_interchangeable (s := .lax) (K := Nat) (V := Char) (A := Lender) (S := Unit)
      faithful_hashByParity
  have hcopied := SideBySide.copied h rfl
  have hnext := hcopied.operation (.map (.insert 4 'c')) rfl rfl rfl rfl
  exact ⟨_, _, rfl, rfl, rfl, hsame _ _ _ _ (hshared _ _ _ hcopied), rfl, rfl, rfl,
    hsame _ _ _ _ (hshared _ _ _ hnext)⟩

end Keyed

end ArenaHash
