import ArenaHash.Proofs.Container.Lists
import ArenaHash.Proofs.Container.Refusals
import ArenaHash.Proofs.Table.Attempts
import ArenaHash.Proofs.Table.Unrefused

/-!
# Denied and attempted again

An insertion may be denied any number of times, by refusals of the array or of the node, before one
attempt is served. At the default load factor, and as long as load factors count the entries
exactly, what it leaves then is what the first attempt would have left, had it been served: the same
chains in the same order, with the same nodes in inline slots, and the same plan. No more than one
array is granted over all attempts. `Addition` lists what this needs of an insertion.
-/

namespace ArenaHash

namespace Table

variable {s : Shape} {T A : Type} [Allocator A] {t u u' : Table s T A} {hasher : Ref → T → UInt64}
  {heap heap' : Heap A} {e : MemoryError} {n : Nat}

instance (t : Table s T A) (heap : Heap A) : Decidable (t.Grants heap) :=
  match hdue : t.due? with
  | none => isFalse fun ⟨_, _, _, hcount, _⟩ => nomatch hdue.symm.trans hcount
  | some count =>
    match hr : heap.request t.delegate (Shape.headLayout.row (count + 1)) with
    | (.ok block, later) => isTrue ⟨count, block, later, hdue, hr⟩
    | (.error e, later) => isFalse fun ⟨_, _, _, hcount, hok⟩ => by
      cases hdue.symm.trans hcount
      cases hr.symm.trans hok

/-- The number of arrays that an attempt is granted. -/
def grants (t : Table s T A) (heap : Heap A) : Nat := if t.Grants heap then 1 else 0

theorem grants_of_due?_eq_none (h : t.due? = none) : t.grants heap = 0 :=
  if_neg fun ⟨_, _, _, hcount, _⟩ => nomatch h.symm.trans hcount

theorem grants_of_refused {count : Nat} {later : Heap A} (h : t.due? = some count)
    (hr : heap.request t.delegate (Shape.headLayout.row (count + 1)) = (.error e, later)) :
    t.grants heap = 0 := by
  refine if_neg fun ⟨_, _, _, hcount, hok⟩ => ?_
  cases h.symm.trans hcount
  cases hr.symm.trans hok

section

variable (hload : t.growth.maxLoad = Growth.defaultLoad)
include hload

theorem Primed.denied (h : t.Primed hasher n u) (hr : u.Refusal hasher heap e u' heap') :
    t.Primed hasher (n + u.grants heap) u' := by
  cases h with
  | asBefore =>
    cases hr with
    | full strict =>
      rw [grants_of_due?_eq_none (if_neg (by simp [strict]))]
      exact .asBefore
    | node _ due =>
      rw [grants_of_due?_eq_none due]
      exact .asBefore
    | array due array =>
      rw [grants_of_refused due array]
      exact .asBefore
    | grown due array redistributed =>
      rw [grants, if_pos ⟨_, _, _, due, array⟩]
      exact .grown due redistributed
  | grown due redistributed =>
    have hnone := redistributed.due?_eq_none (Growth.isPositive_of_default hload) due
    rw [grants_of_due?_eq_none hnone]
    cases hr with
    | full | node => exact .grown due redistributed
    | array due' | grown due' => exact absurd (hnone.symm.trans due') nofun

theorem Primed.grants_le (h : t.Primed hasher n u) (heap : Heap A) : n + u.grants heap ≤ 1 := by
  cases h with
  | asBefore =>
    rw [grants]
    split <;> omega
  | grown due redistributed =>
    have hnone := redistributed.due?_eq_none (Growth.isPositive_of_default hload) due
    rw [grants_of_due?_eq_none hnone]

end

end Table

namespace Keyed

variable {s : Table.Shape} {K V A S : Type} [BEq K] [Allocator A] {f : S → K → UInt64}
  {c d c' d' : Keyed s K V A S} {heap heap' g g' : Heap A} {ρ : Type}

omit [BEq K] [Allocator A] in
theorem hasher_congr {H : Hashing S K} (h : d.builder = c.builder) : d.hasher H = c.hasher H := by
  unfold hasher
  rw [h]

/-- An insertion of one element, with what it answers. -/
abbrev Attempt (s : Table.Shape) (K V A S ρ : Type) :=
  Keyed s K V A S → Heap A → Except MemoryError ρ × Keyed s K V A S × Heap A

/-- What attempts that fail, each on what the one before it left, come to; others borrow from the
heap in between. -/
inductive Failing (attempt : Attempt s K V A S ρ) (c : Keyed s K V A S) (heap : Heap A) :
    Nat → Keyed s K V A S → Heap A → Prop where
  | first : Failing attempt c heap 0 c heap
  | next {n : Nat} {d d' : Keyed s K V A S} {heap' heap'' : Heap A} {e : MemoryError}
    (h : Failing attempt c heap n d heap') (hr : attempt d heap' = (.error e, d', heap'')) :
    Failing attempt c heap (n + d.table.grants heap') d' heap''
  | elsewhere {n : Nat} {d : Keyed s K V A S} {heap' heap'' : Heap A} {others : List (Loan A)}
    (h : Failing attempt c heap n d heap')
    (hl : heap''.Lends (d.table.loans d.table.refs ++ others)) :
    Failing attempt c heap n d heap''

/-- What it comes to that an insertion into `c` is attempted until it is served. -/
structure Retried (attempt : Attempt s K V A S ρ) (c : Keyed s K V A S) (n : Nat)
    (d : Keyed s K V A S) (heap' : Heap A) : Prop where
  /-- With the `n` arrays before, the attempt at hand is not granted a second one. -/
  grants_le : n + d.table.grants heap' ≤ 1
  /-- It fails only if a request is refused. -/
  served : heap'.refusalSince (attempt d heap').2.2 = none →
    ∃ r d' later, attempt d heap' = (.ok r, d', later)
  /-- If it succeeds, it leaves what the first attempt leaves where that one succeeds. -/
  twin : ∀ {r r' : ρ} {d' c' : Keyed s K V A S} {later g g' : Heap A} {others : List (Loan A)},
    attempt d heap' = (.ok r, d', later) →
    g.Lends (c.table.loans c.table.refs ++ others) → attempt c g = (.ok r', c', g') →
    d'.builder = c'.builder ∧ c'.table.Twin d'.table

/-- An insertion that adds an element wherever `P` holds. -/
structure Addition (f : S → K → UInt64) (P : Keyed s K V A S → Prop)
    (attempt : Attempt s K V A S ρ) : Prop where
  step : ∀ {d heap}, P d → Reached f d heap →
    Reached f (attempt d heap).2.1 (attempt d heap).2.2
  atomic : ∀ {d heap}, P d → Reached f d heap → Atomic f d heap (attempt d heap)
  keeps : ∀ {d d' heap heap'}, P d → Reached f d heap → Reached f d' heap' → d.Unharmed f d' → P d'
  served : ∀ {d heap}, P d → Reached f d heap →
    heap.refusalSince (attempt d heap).2.2 = none →
      ∃ r d' later, attempt d heap = (.ok r, d', later)
  twin : ∀ {c d c' d' heap g heap' g' r r' n}, P c → P d → Reached f c g → Reached f d heap →
    c.table.growth.maxLoad = Growth.defaultLoad → d.builder = c.builder →
    c.table.Primed (c.hasher (.ofFun f)) n d.table →
    attempt c g = (.ok r, c', g') → attempt d heap = (.ok r', d', heap') →
    d'.builder = c'.builder ∧ c'.table.Twin d'.table

namespace Addition

variable {P : Keyed s K V A S → Prop} {attempt : Attempt s K V A S ρ}

theorem failing (h : Addition f P attempt) (hload : c.table.growth.maxLoad = Growth.defaultLoad)
    {n : Nat} (hP : P c) (hc : Reached f c heap)
    (hfailing : Failing attempt c heap n d heap') :
    P d ∧ Reached f d heap' ∧ d.builder = c.builder ∧
      c.table.Primed (c.hasher (.ofFun f)) n d.table := by
  induction hfailing with
  | first => exact ⟨hP, hc, rfl, .asBefore⟩
  | @next n d d' heap' heap'' e _ hr ih =>
    obtain ⟨hPd, hd, hbuilder, hprimed⟩ := ih
    have hstep := h.step hPd hd
    have hdenied := h.atomic hPd hd e (by rw [hr])
    rw [hr] at hstep hdenied
    have hrefusal := hdenied.refusal
    rw [hasher_congr hbuilder] at hrefusal
    exact ⟨h.keeps hPd hd hstep hdenied.unharmed, hstep,
      hdenied.unharmed.builder.trans hbuilder, hprimed.denied hload hrefusal⟩
  | elsewhere _ hl ih => exact ⟨ih.1, ih.2.1.elsewhere hl, ih.2.2⟩

theorem retried (h : Addition f P attempt) (hload : c.table.growth.maxLoad = Growth.defaultLoad)
    {n : Nat} (hP : P c) (hc : Reached f c heap)
    (hfailing : Failing attempt c heap n d heap') : Retried attempt c n d heap' := by
  obtain ⟨hPd, hd, hbuilder, hprimed⟩ := h.failing hload hP hc hfailing
  exact ⟨hprimed.grants_le hload heap', h.served hPd hd, fun hr hl hr' =>
    h.twin hP hPd (hc.elsewhere hl) hd hload hbuilder hprimed hr' hr⟩

/-- Where `P` holds, another answer makes no difference. -/
theorem map {τ : Type} {other : Attempt s K V A S τ} (h : Addition f P attempt) (answer : ρ → τ)
    (heq : ∀ {d heap}, P d →
      other d heap = ((attempt d heap).1.map answer, (attempt d heap).2)) :
    Addition f P other where
  step hP hd := by
    rw [heq hP]
    exact h.step hP hd
  atomic hP hd := by
    rw [heq hP]
    exact (h.atomic hP hd).map answer
  keeps := h.keeps
  served hP hd hr := by
    rw [heq hP] at hr ⊢
    obtain ⟨r, d', later, hok⟩ := h.served hP hd hr
    exact ⟨answer r, d', later, by rw [hok]; rfl⟩
  twin := by
    intro c d c' d' heap g heap' g' r r' n hPc hPd hc hd hload hbuilder hprimed hr hr'
    rw [heq hPc] at hr
    rw [heq hPd] at hr'
    rcases hc' : attempt c g with ⟨e | x, _, _⟩ <;> rw [hc'] at hr <;> cases hr
    rcases hd' : attempt d heap with ⟨e | x, _, _⟩ <;> rw [hd'] at hr' <;> cases hr'
    exact h.twin hPc hPd hc hd hload hbuilder hprimed hc' hd'

end Addition

/-! ## Insertions -/

section

variable [EquivBEq K] (hf : Hashing.Faithful f) (k : K) (v : V)
include hf

/-- A denied insertion brings no key. -/
theorem Unharmed.contains_eq (h : d.Unharmed f d') (hd : Reached f d heap)
    (hd' : Reached f d' heap') : d'.contains (.ofFun f) k = d.contains (.ofFun f) k := by
  obtain ⟨_, _, hp⟩ := hd.placed hf
  obtain ⟨_, _, hp'⟩ := hd'.placed hf
  have hentry : ∀ (t : Table s (K × V) A) q, t.entryAt? q = (t.contentAt q).map Prod.fst := by
    intro t q
    unfold Table.entryAt? Table.contentAt
    cases t.node? q <;> rfl
  have hperm : d'.toList.Perm d.toList := by
    simp only [toList, Table.toList, hentry, h.contentAt]
    exact h.refs.filterMap _
  rw [hp.contains_eq hf, hp'.contains_eq hf]
  exact hperm.any_eq

variable (ho : s.overflow = true)
include ho

theorem addition_add : Addition f (·.contains (.ofFun f) k = false)
    fun c : Keyed s K V A S => Map.add (.ofFun f) c k v where
  step {d heap} hP hd := by
    have hstep : Reached f (Map.insert (.ofFun f) d k v heap).2.1
        (Map.insert (.ofFun f) d k v heap).2.2 := hd.step (.map (.insert k v))
    rwa [insert_of_absent hP] at hstep
  atomic hP hd := by
    obtain ⟨_, _, hp⟩ := hd.placed hf
    exact hp.atomic_add hf (hd.tuned hf) k v
  keeps hP hd hd' h := (h.contains_eq hf k hd hd').trans hP
  served {d heap} hP hd hr := by
    obtain ⟨_, _, hp⟩ := hd.placed hf
    have hcases := (hd.tuned hf).insertFront_unrefused hp.stores _ _ _ hr
    unfold Map.add
    generalize d.table.insertFront _ _ _ heap = result at hcases
    cases hcases with
    | full full => exact absurd ((Table.Shape.strict_of_denial full).symm.trans ho) nofun
    | done => exact ⟨_, _, _, rfl⟩
  twin := by
    intro c d c' d' heap g heap' g' r r' n hPc hPd hc hd hload hbuilder hprimed hr hr'
    obtain ⟨_, _, hp⟩ := hc.placed hf
    obtain ⟨_, _, hp'⟩ := hd.placed hf
    unfold Map.add at hr hr'
    rw [hasher_congr hbuilder, hbuilder] at hr'
    rcases hi : c.table.insertFront _ (k, v) (c.hasher (.ofFun f)) g with ⟨e | q, t, later⟩ <;>
      rw [hi] at hr <;> cases hr
    rcases hi' : d.table.insertFront _ (k, v) (c.hasher (.ofFun f)) heap with
      ⟨e | q', u, later'⟩ <;> rw [hi'] at hr' <;> cases hr'
    exact ⟨rfl, hprimed.insertFront hload (hc.tuned hf) (hd.tuned hf) hp.stores hp'.stores
      hi hi'⟩

theorem addition_insertBeside : Addition f (fun _ => True)
    fun c : Keyed s K V A S => Multimap.insert (.ofFun f) c k v where
  step _ hd := hd.step (.multimap (.insert k v))
  atomic _ hd := by
    obtain ⟨_, _, hp⟩ := hd.placed hf
    exact hp.atomic_insertBeside hf (hd.tuned hf) k v
  keeps _ _ _ _ := trivial
  served {d heap} _ hd hr := by
    obtain ⟨_, _, hp⟩ := hd.placed hf
    have hcases := (hd.tuned hf).insertBeside_unrefused hp.stores _ _ _ _ hr
    unfold Multimap.insert
    generalize d.table.insertBeside _ _ _ _ heap = result at hcases
    cases hcases with
    | full full => exact absurd ((Table.Shape.strict_of_denial full).symm.trans ho) nofun
    | done => exact ⟨_, _, _, rfl⟩
  twin := by
    intro c d c' d' heap g heap' g' r r' n _ _ hc hd hload hbuilder hprimed hr hr'
    obtain ⟨_, _, hp⟩ := hc.placed hf
    obtain ⟨_, _, hp'⟩ := hd.placed hf
    unfold Multimap.insert at hr hr'
    rw [hasher_congr hbuilder, hbuilder] at hr'
    rcases hi : c.table.insertBeside _ (k, v) (hasKey k) (c.hasher (.ofFun f)) g with
      ⟨e | q, t, later⟩ <;> rw [hi] at hr <;> cases hr
    rcases hi' : d.table.insertBeside _ (k, v) (hasKey k) (c.hasher (.ofFun f)) heap with
      ⟨e | q', u, later'⟩ <;> rw [hi'] at hr' <;> cases hr'
    exact ⟨rfl, hprimed.insertBeside hload (hc.tuned hf) (hd.tuned hf) hp.stores
      hp'.stores hi hi'⟩

end

/-- The insertion comes to the same, however often it fails before it succeeds. -/
def Retryable (attempt : Attempt s K V A S ρ) (c : Keyed s K V A S) (heap : Heap A) : Prop :=
  ∀ n d heap', Failing attempt c heap n d heap' → Retried attempt c n d heap'

/-- An insertion of a new element that is denied and attempted again leaves in the end what it
would have left at once, and is granted one array at most. -/
theorem retried_insertions [EquivBEq K] (hf : Hashing.Faithful f) (ho : s.overflow = true) :
    (∀ (c : Keyed s K V A S) (heap : Heap A), Reached f c heap →
      c.table.growth.maxLoad = Growth.defaultLoad → c.size < 2 ^ 24 → ∀ k v,
        (c.contains (.ofFun f) k = false →
          Retryable (fun c => Map.insert (.ofFun f) c k v) c heap ∧
          Retryable (fun c => Map.replace (.ofFun f) c k v) c heap ∧
          Retryable (fun c => Map.insertIfNew (.ofFun f) c k v) c heap) ∧
        Retryable (fun c => Multimap.insert (.ofFun f) c k v) c heap) ∧
    ∀ (m : Keyed s K Unit A S) (heap : Heap A), Reached f m heap →
      m.table.growth.maxLoad = Growth.defaultLoad → m.size < 2 ^ 24 → ∀ k,
        (m.contains (.ofFun f) k = false →
          Retryable (fun m => KeySet.insert (.ofFun f) m k) m heap ∧
          Retryable (fun m => KeySet.replace (.ofFun f) m k) m heap) ∧
        Retryable (fun m => KeyBag.insert (.ofFun f) m k) m heap := by
  refine ⟨fun c heap h hload _ k v => ?_, fun m heap h hload _ k => ?_⟩
  · have hadd := addition_add hf k v ho (s := s) (A := A)
    have hbeside := addition_insertBeside hf k v ho (s := s) (A := A)
    refine ⟨fun hmiss => ⟨fun _ _ _ => ?_, fun _ _ _ => ?_, fun _ _ _ => ?_⟩, fun _ _ _ => ?_⟩
    · exact (hadd.map _ (insert_of_absent · v _)).retried hload hmiss h
    · exact (hadd.map _ (replace_of_absent · v _)).retried hload hmiss h
    · exact (hadd.map _ (insertIfNew_of_absent · v _)).retried hload hmiss h
    · exact hbeside.retried hload trivial h
  · have hadd := addition_add hf k () ho (s := s) (A := A)
    have hbeside := addition_insertBeside hf k () ho (s := s) (A := A)
    refine ⟨fun hmiss => ⟨fun _ _ _ => ?_, fun _ _ _ => ?_⟩, fun _ _ _ => ?_⟩
    · have hinsert := hadd.map _ (insertIfNew_of_absent · () _)
      exact (hinsert.map Prod.snd fun _ => rfl).retried hload hmiss h
    · have hreplace := hadd.map _ (replace_of_absent · () _)
      exact (hreplace.map (Option.map Prod.fst) fun _ => rfl).retried hload hmiss h
    · exact hbeside.retried hload trivial h

def addThird (m : Multimap .lax Nat Char Lender Unit) (heap : Heap Lender) :
    Except MemoryError Unit × Multimap .lax Nat Char Lender Unit × Heap Lender :=
  Multimap.insert (.ofFun hashByParity) m 1 'c' heap

/-- Two entries, one of them in an overflow node. The second request is refused and the fourth. -/
def twoEntries : Multimap .lax Nat Char Lender Unit × Heap Lender :=
  let heap : Heap Lender :=
    { serves := fun events _ _ => events.length != 1 && events.length != 3 }
  let first := Multimap.insert (.ofFun hashByParity) (.new () .plain) 1 'a' heap
  (Multimap.insert (.ofFun hashByParity) first.2.1 3 'b' first.2.2).2

def attemptedOnce := (addThird twoEntries.1 twoEntries.2).2

def attemptedTwice := (addThird attemptedOnce.1 attemptedOnce.2).2

theorem reached_twoEntries : Reached hashByParity twoEntries.1 twoEntries.2 :=
  ((Reached.new () Lender.plain (Heap.lends_nil fun events _ _ =>
    events.length != 1 && events.length != 3)).step (.multimap (.insert 1 'a'))).step
      (.multimap (.insert 3 'b'))

theorem failing_twoEntries :
    Failing addThird twoEntries.1 twoEntries.2 1 attemptedTwice.1 attemptedTwice.2 := by
  have hgrants : 0 + twoEntries.1.table.grants twoEntries.2 +
      attemptedOnce.1.table.grants attemptedOnce.2 = 1 := by decide +kernel
  rw [← hgrants]
  exact .next (.next .first rfl) rfl

/-- A third entry is refused its array, then served it and refused its node, and then added. -/
theorem retried_insertions_third :
    let added := addThird attemptedTwice.1 attemptedTwice.2
    [twoEntries.1, attemptedOnce.1, attemptedTwice.1, added.2.1].map (·.table.bucketCount) =
        [2, 2, 5, 5] ∧ added.1 = .ok () ∧
      Retried addThird twoEntries.1 1 attemptedTwice.1 attemptedTwice.2 :=
  ⟨by decide +kernel, rfl, ((retried_insertions faithful_hashByParity rfl).1 _ _ reached_twoEntries
    (by decide +kernel) (by decide +kernel) 1 'c').2 _ _ _ failing_twoEntries⟩

end Keyed

end ArenaHash
