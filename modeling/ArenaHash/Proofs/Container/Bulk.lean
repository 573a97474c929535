import ArenaHash.Proofs.Container.Capacity
import ArenaHash.Proofs.Container.MapStates
import ArenaHash.Proofs.Table.Unrefused
import Mathlib.Logic.Function.Iterate

/-!
# Inserting many items

While nothing is refused, an insertion adds an entry unless all slots are in use (`Takes`), and how
many buckets there are and will be depends only on how many entries were added to what (`Scale`). A
list of items then goes in up to the first for which there is no slot. What is in a container
afterwards is described by the items alone, with those that it started from in front of them:
multimaps and key bags have them all, maps one for each key, with the key of its first item and the
value of its last (`Reflects`).
-/

namespace ArenaHash

open Keyed (hasKey hasKey_cases)

/-! ## Distinct keys -/

section

variable {α : Type} [BEq α] [EquivBEq α]

theorem eraseDups_of_pairwise {l : List α} (h : l.Pairwise fun a b => (a == b) = false) :
    l.eraseDups = l := by
  induction h with
  | nil => rfl
  | @cons a l ha _ ih =>
    have hall : l.filter (fun b => !b == a) = l :=
      List.filter_eq_self.mpr fun b hb => by rw [BEq.comm, ha b hb]; rfl
    rw [List.eraseDups_cons, hall, ih]

/-- An element at the end counts if no equal one comes before. -/
theorem eraseDups_concat (x : α) : ∀ l : List α,
    (l ++ [x]).eraseDups = if l.any (· == x) then l.eraseDups else l.eraseDups ++ [x]
  | [] => rfl
  | a :: l => by
    rw [List.cons_append, List.eraseDups_cons, List.eraseDups_cons, List.filter_append,
      List.any_cons]
    cases hax : a == x with
    | true =>
      have hnone : [x].filter (fun b => !b == a) = [] := by simp [BEq.symm hax]
      rw [hnone, List.append_nil, Bool.true_or, if_pos rfl]
    | false =>
      have hone : [x].filter (fun b => !b == a) = [x] := by
        rw [BEq.comm] at hax
        simp [hax]
      have hany : (l.filter fun b => !b == a).any (· == x) = l.any (· == x) := by
        rw [List.any_filter]
        refine List.any_congr rfl fun y => ?_
        cases hyx : y == x with
        | false => exact Bool.and_false _
        | true => simp [BEq.congr_left (c := a) hyx, BEq.comm (a := x), hax]
      rw [hone, eraseDups_concat x (l.filter fun b => !b == a), hany, Bool.false_or]
      split <;> rfl
termination_by l => l.length
decreasing_by exact Nat.lt_succ_of_le (List.length_filter_le _ _)

end

/-! ## What items leave of each key -/

section

variable {K V : Type} [BEq K] {ref items : List (K × V)} {e : K × V}

section

variable (v : V) (k : K) (l : List (K × V))

theorem find?_changeFirst :
    (changeFirst (hasKey k) (fun d => (d.1, v)) l).find? (hasKey k) =
      (l.find? (hasKey k)).map fun d => (d.1, v) := by
  rcases hasKey_cases k l with hnone | ⟨left, d, right, rfl, hd, hleft⟩
  · have hmiss : l.find? (hasKey k) = none :=
      List.find?_eq_none.mpr fun d hd => by simpa using hnone d hd
    rw [changeFirst_of_none hnone, hmiss, Option.map_none]
  · have hmiss : left.find? (hasKey k) = none :=
      List.find?_eq_none.mpr fun d hd => by simpa using hleft d hd
    have hd' : hasKey k (d.1, v) = true := hd
    rw [changeFirst_of_first hd hleft, List.find?_append, List.find?_append, hmiss,
      Option.none_or, Option.none_or, List.find?_cons_of_pos hd, List.find?_cons_of_pos hd',
      Option.map_some]

variable [EquivBEq K]

theorem find?_changeFirst_of_ne {k' : K} (hk : (k' == k) = false) :
    (changeFirst (hasKey k) (fun d => (d.1, v)) l).find? (hasKey k') = l.find? (hasKey k') := by
  rcases hasKey_cases k l with hnone | ⟨left, d, right, rfl, hd, hleft⟩
  · rw [changeFirst_of_none hnone]
  · have hd' : ¬hasKey k' d = true := fun hd' => by
      rw [BEq.trans (BEq.symm hd') hd] at hk
      cases hk
    rw [changeFirst_of_first hd hleft, List.find?_append, List.find?_append,
      List.find?_cons_of_neg hd', List.find?_cons_of_neg (show ¬hasKey k' (d.1, v) = true from hd')]

/-- A key is that of an entry, or the entry has another one. -/
theorem hasKey_or (k : K) (e : K × V) :
    (hasKey k e = true ∧ (hasKey k : K × V → Bool) = hasKey e.1) ∨
      hasKey k e = false ∧ (k == e.1) = false := by
  cases hk : k == e.1 with
  | true => exact .inl ⟨BEq.symm hk, Runs.hasKey_congr hk⟩
  | false =>
    rw [BEq.comm] at hk
    exact .inr ⟨hk, rfl⟩

end

/-- `ref` has one entry for each key among the items, with the first item's key and the last one's
value. -/
structure Reflects (ref items : List (K × V)) : Prop where
  keys : (ref.map Prod.fst).Perm (items.map Prod.fst).eraseDups
  stored : ∀ k, (ref.find? (hasKey k)).map Prod.fst = (items.find? (hasKey k)).map Prod.fst
  value : ∀ k, (ref.find? (hasKey k)).map Prod.snd = (items.reverse.find? (hasKey k)).map Prod.snd

namespace Reflects

/-- Entries with unequal keys are all that is left of them. -/
theorem self [EquivBEq K] (h : UniqueKeys ref) : Reflects ref ref where
  keys := by
    have hkeys : (ref.map Prod.fst).Pairwise fun a b => (a == b) = false := List.pairwise_map.mpr h
    rw [eraseDups_of_pairwise hkeys]
  stored _ := rfl
  value k := by rw [h.find?_perm ref.reverse_perm.symm k]

variable (h : Reflects ref items)
include h

theorem length_eq : ref.length = (items.map Prod.fst).eraseDups.length := by
  rw [← h.keys.length_eq, List.length_map]

/-- The items have a key as soon as the reference has. -/
theorem any_eq (k : K) : (items.map Prod.fst).any (· == k) = (ref.find? (hasKey k)).isSome := by
  have hsome := congrArg Option.isSome (h.stored k)
  rw [Option.isSome_map, Option.isSome_map] at hsome
  rw [List.any_map, hsome, List.isSome_find?]
  rfl

variable [EquivBEq K]

theorem keys_concat (e : K × V) : ((items ++ [e]).map Prod.fst).eraseDups =
    if (ref.find? (hasKey e.1)).isSome then (items.map Prod.fst).eraseDups
    else (items.map Prod.fst).eraseDups ++ [e.1] := by
  rw [List.map_append, ← h.any_eq]
  exact eraseDups_concat e.1 _

/-- The value of a key that has come before is overwritten. -/
theorem present {d : K × V} (hd : ref.find? (hasKey e.1) = some d) :
    Reflects (changeFirst (hasKey e.1) (fun d => (d.1, e.2)) ref) (items ++ [e]) where
  keys := by
    rw [h.keys_concat, hd, Option.isSome_some, if_pos rfl,
      Keyed.keys_changeFirst e.1 fun _ => e.2]
    exact h.keys
  stored k := by
    have hstored := h.stored k
    rcases hasKey_or k e with ⟨-, hk⟩ | ⟨he, hk⟩
    · rw [hk, hd] at hstored
      obtain ⟨d', hd', hkey⟩ := Option.map_eq_some_iff.mp hstored.symm
      rw [hk, find?_changeFirst, hd, List.find?_append, hd', Option.some_or, Option.map_some,
        Option.map_some, Option.map_some, hkey]
    · rw [find?_changeFirst_of_ne e.2 e.1 ref hk, List.find?_append, hstored]
      simp [he]
  value k := by
    rw [List.reverse_append, List.reverse_singleton, List.singleton_append]
    rcases hasKey_or k e with ⟨he, hk⟩ | ⟨he, hk⟩
    · rw [List.find?_cons_of_pos he, hk, find?_changeFirst, hd]
      rfl
    · rw [List.find?_cons_of_neg (by simp [he]), find?_changeFirst_of_ne e.2 e.1 ref hk, h.value]

theorem absent (hd : ref.find? (hasKey e.1) = none) : Reflects (e :: ref) (items ++ [e]) where
  keys := by
    rw [h.keys_concat, hd, Option.isSome_none, if_neg nofun, List.map_cons]
    exact (h.keys.cons e.1).trans (List.perm_append_singleton _ _).symm
  stored k := by
    have hstored := h.stored k
    rcases hasKey_or k e with ⟨he, hk⟩ | ⟨he, hk⟩
    · rw [hk, hd] at hstored
      have hnone := Option.map_eq_none_iff.mp hstored.symm
      rw [List.find?_cons_of_pos he, List.find?_append, hk, hnone, Option.none_or, ← hk,
        List.find?_cons_of_pos he]
    · rw [List.find?_cons_of_neg (by simp [he]), List.find?_append, hstored]
      simp [he]
  value k := by
    rw [List.reverse_append, List.reverse_singleton, List.singleton_append, List.find?_cons,
      List.find?_cons]
    cases hasKey k e with
    | true => rfl
    | false => exact h.value k

end Reflects

end

/-! ## Single insertions -/

/-- Every request is served. -/
def Heap.Generous {A : Type} (heap : Heap A) : Prop :=
  ∀ events lender layout, heap.serves events lender layout = true

section

variable {A : Type} [Allocator A] {heap later : Heap A}

theorem Heap.Generous.ne_error (h : heap.Generous) {lender : A} {layout : Layout}
    {e : MemoryError} : heap.request lender layout ≠ (.error e, later) := by
  intro hr
  rw [request, if_pos (h _ _ _)] at hr
  cases hr

omit [Allocator A] in
theorem Heap.Generous.of_serves (h : heap.Generous) (hs : later.serves = heap.serves) :
    later.Generous := by
  unfold Generous
  rwa [hs]

omit [Allocator A] in
theorem HeapRow.serves_release? {P : Type} (slot : Layout) (r : Option (HeapRow P)) (lender : A)
    (heap : Heap A) : (release? slot r lender heap).serves = heap.serves := by
  unfold release? release
  split
  · split <;> rfl
  · rfl

end

namespace Table

/-- Why the last of so many entries gets no slot, if it does not. -/
def Shape.shortage (s : Shape) (slots : Nat) : Option MemoryError :=
  if s.overflow || slots ≤ s.capacity then none else some (.full s.capacity)

/-- All that decides when buckets are added. -/
structure Scale where
  size : Nat
  bucketCount : Nat
  growth : Growth

namespace Scale

/-- The scale with one more entry. -/
def next (s : Shape) (v : Scale) : Scale :=
  let due := if s.overflow then (v.growth.advise v.bucketCount v.size 1).1 else none
  ⟨v.size + 1, due.getD v.bucketCount, due.elim v.growth v.growth.retarget⟩

theorem size_iterate (s : Shape) (v : Scale) (n : Nat) : ((next s)^[n] v).size = v.size + n := by
  induction n with
  | zero => rfl
  | succ n ih =>
    rw [Function.iterate_succ_apply']
    exact congrArg Nat.succ ih

end Scale

variable {s : Shape} {T A : Type} [Allocator A] {t t' : Table s T A} {heap heap' : Heap A}
  {hasher : Ref → T → UInt64} {e : MemoryError}

def scale (t : Table s T A) : Scale := ⟨t.size, t.bucketCount, t.growth⟩

theorem Refusal.not_generous (h : t.Refusal hasher heap e t' heap') (ho : s.overflow = true) :
    ¬heap.Generous := by
  intro hg
  cases h with
  | full strict => exact absurd (ho.symm.trans strict) nofun
  | node _ _ node => exact hg.ne_error node
  | array _ array => exact hg.ne_error array
  | @grown _ _ _ _ later _ _ array _ node =>
    have hlater : later.Generous := hg.of_serves (by
      rw [← heap.serves_request t.delegate, array])
    exact (hlater.of_serves (HeapRow.serves_release? _ _ _ _)).ne_error node

/-- A container within its slots lacks one if a table is denied one. -/
theorem Stores.denial_eq {rows : Rows T} {others : List (Loan A)}
    (h : t.Stores heap rows [] others) : s.denial t.size none = s.shortage (t.size + 1) := by
  unfold Shape.denial Shape.shortage
  cases ho : s.overflow with
  | true => rfl
  | false =>
    have hle := h.size_le ho
    by_cases hfull : t.size = s.capacity
    · simp [hfull]
    · have hlt : t.size + 1 ≤ s.capacity := by omega
      simp [hfull, hlt]

end Table

namespace Keyed

variable {s : Table.Shape} {K V A S : Type} [Allocator A] {c : Keyed s K V A S} {heap : Heap A}
  {rows : Rows (K × V)} {others : List (Loan A)} {e : K × V}

/-- What adding an entry comes to while nothing is refused. -/
inductive Takes (c : Keyed s K V A S) (heap : Heap A) (e : K × V) {ρ : Type} :
    Except MemoryError ρ × Keyed s K V A S × Heap A → Prop where
  | denied {err : MemoryError} (shortage : s.shortage (c.size + 1) = some err) :
    Takes c heap e (.error err, c, heap)
  | added {answer : ρ} {c' : Keyed s K V A S} {heap' : Heap A}
    (room : s.shortage (c.size + 1) = none) (perm : c'.toList.Perm (e :: c.toList))
    (builder : c'.builder = c.builder) (scale : c'.table.scale = c.table.scale.next s)
    (serves : heap'.serves = heap.serves) : Takes c heap e (.ok answer, c', heap')

omit [Allocator A] in
theorem Takes.map {ρ τ : Type} {out : Except MemoryError ρ × Keyed s K V A S × Heap A}
    (h : c.Takes heap e out) (g : ρ → τ) : c.Takes heap e (out.1.map g, out.2) := by
  cases h with
  | denied shortage => exact .denied shortage
  | added room perm builder scale serves => exact .added room perm builder scale serves

theorem Takes.of_inserted {hash : UInt64} {hasher : Ref → K × V → UInt64}
    {add : Ref → List (Cell (K × V)) → List (Cell (K × V))}
    {result : Except MemoryError Ref × Table s (K × V) A × Heap A}
    (h : c.table.Stores heap rows [] others) (hg : s.overflow = true → heap.Generous)
    (hadd : ∀ q cs, (add q cs).Perm (s.cell q hash e :: cs))
    (hi : Table.Inserted c.table heap rows others hash hasher add result)
    (hrefusal : ∀ err, result.1 = .error err →
      c.table.Refusal hasher heap err result.2.1 result.2.2)
    (hplan : ∀ q, result.1 = .ok q → ∃ room later,
      c.table.Room hasher heap (.ok (), room, later) ∧ room.SamePlan result.2.1)
    (hsilent : s.overflow = false → result.2.2 = heap) :
    c.Takes heap e (result.1, { c with table := result.2.1 }, result.2.2) := by
  cases hi with
  | @denied rows' err t' heap' _ _ r _ denied =>
    cases ho : s.overflow with
    | true => exact absurd (hg ho) ((hrefusal err rfl).not_generous ho)
    | false =>
      obtain rfl : t' = c.table := (hrefusal err rfl).eq_of_strict ho
      obtain rfl : heap' = heap := hsilent ho
      refine .denied ?_
      have hdenied : s.denial c.table.size none = some err := by
        rw [← denied, Table.Shape.denial, Table.Shape.denial, ho]
        rfl
      exact h.denial_eq.symm.trans hdenied
  | @done rows' q t' heap' regrouped stores continues granted =>
    obtain ⟨room, later, hroom, hsame⟩ := hplan q rfl
    obtain ⟨hcount, hgrowth⟩ := hroom.plan
    have hput : ((rows'.put (t'.bucketOf hash) (add q (rows' (t'.bucketOf hash)))).all
        t'.bucketCount ++ []).Perm (rows'.all t'.bucketCount ++ [s.cell q hash e]) := by
      refine rows'.all_put_perm (stores.bucketOf_lt hash) ?_
      rw [List.append_nil]
      exact (hadd _ _).trans (List.perm_append_singleton _ _).symm
    have hperm : t'.toList.Perm (e :: c.toList) := by
      rw [stores.toList_eq, toList, h.toList_eq]
      rw [List.append_nil] at hput
      refine (hput.map Cell.entry).trans ?_
      rw [List.map_append]
      exact (List.perm_append_singleton e _).trans
        (((regrouped.perm stores.bucketCount_pos).map _).cons e)
    have hsize : t'.size = c.table.size + 1 := by
      have hlength := hperm.length_eq
      rwa [stores.toList_eq, List.length_map, List.length_cons, toList, h.toList_eq,
        List.length_map, ← List.append_nil (Rows.all _ _), ← stores.size_eq,
        ← List.append_nil (Rows.all _ _), ← h.size_eq] at hlength
    refine .added (h.denial_eq.symm.trans granted) hperm rfl ?_ continues.1
    unfold Table.scale Table.Scale.next
    rw [hsize, hsame.bucketCount.trans hcount, hsame.growth.trans hgrowth]
    rfl

section

variable (h : c.table.Stores heap rows [] others) (ht : c.table.Tuned)
  (hg : s.overflow = true → heap.Generous)
include h ht hg

theorem takes_add [BEq K] (H : Hashing S K) (k : K) (v : V) :
    c.Takes heap (k, v) (Map.add H c k v heap) :=
  .of_inserted h hg (fun _ _ => .refl _) (h.insertFront _ _ _)
    (fun _ he => ht.insertFront_refused h (Prod.ext he rfl))
    (fun _ hq => ht.insertFront_room h _ _ _ hq) (fun ho => Table.heap_insertFront ho _ _ _ _ _)

theorem takes_insertBeside [BEq K] (H : Hashing S K) (k : K) (v : V) :
    c.Takes heap (k, v) (Multimap.insert H c k v heap) :=
  (Takes.of_inserted h hg (fun _ cs => besideFirst_perm _ _ cs)
    (h.insertBeside _ _ (hasKey k) (c.hasher H))
    (fun _ he => ht.insertBeside_refused h (Prod.ext he rfl))
    (fun _ hq => ht.insertBeside_room h _ _ _ _ hq)
    (fun ho => Table.heap_insertBeside ho _ _ _ _ _ _)).map _

end

end Keyed

/-! ## Lists of items -/

namespace Keyed

variable {s : Table.Shape} {K V A S ι : Type} {c : Keyed s K V A S} {heap : Heap A}

/-- Of the items, `done` went into `c`, which is then `c'`, and `rest` did not; `before` are those
that `c` started from. -/
structure Filled (insert : Insertion ι (Keyed s K V A S) A)
    (shortage : List ι → Option MemoryError) (P : Keyed s K V A S → Heap A → List ι → Prop)
    (c : Keyed s K V A S) (heap : Heap A) (before items done rest : List ι) (c' : Keyed s K V A S)
    (heap' : Heap A) : Prop where
  split : items = done ++ rest
  front : insertMany insert c done heap = (.ok (), c', heap')
  holds : P c' heap' (before ++ done)
  room : shortage (before ++ done) = none
  stop : rest = [] ∧ insertMany insert c items heap = (.ok (), c', heap') ∨
    ∃ x tail e, rest = x :: tail ∧ shortage (before ++ done ++ [x]) = some e ∧
      insertMany insert c items heap = (.error e, c', heap')

/-- What an insertion does that either adds its item or, for lack of a slot, nothing. -/
def Fills (insert : Insertion ι (Keyed s K V A S) A) (shortage : List ι → Option MemoryError)
    (P : Keyed s K V A S → Heap A → List ι → Prop) (before : List ι) (x : ι)
    (c : Keyed s K V A S) (heap : Heap A) : Prop :=
  (∃ c' heap', insert c x heap = (.ok (), c', heap') ∧ P c' heap' (before ++ [x]) ∧
      shortage (before ++ [x]) = none) ∨
    ∃ e, insert c x heap = (.error e, c, heap) ∧ shortage (before ++ [x]) = some e

theorem exists_filled {insert : Insertion ι (Keyed s K V A S) A}
    {shortage : List ι → Option MemoryError} {P : Keyed s K V A S → Heap A → List ι → Prop}
    (hstep : ∀ {c heap before} (x : ι), P c heap before → c.Fills insert shortage P before x heap)
    {before : List ι} (items : List ι) (h : P c heap before) (hroom : shortage before = none) :
    ∃ done rest c' heap', Filled insert shortage P c heap before items done rest c' heap' := by
  induction items generalizing c heap before with
  | nil =>
    exact ⟨[], [], c, heap, rfl, rfl, by rwa [List.append_nil], by rwa [List.append_nil],
      .inl ⟨rfl, rfl⟩⟩
  | cons x items ih =>
    rcases hstep x h with ⟨c₁, heap₁, hx, h₁, hroom₁⟩ | ⟨e, hx, hshort⟩
    · obtain ⟨done, rest, c', heap', rfl, hfront, hholds, hroom', hstop⟩ := ih h₁ hroom₁
      rw [← List.append_cons] at hholds hroom' hstop
      refine ⟨x :: done, rest, c', heap', rfl, ?_, hholds, hroom', ?_⟩
      · simpa only [insertMany, hx] using hfront
      · simpa only [insertMany, hx, List.cons_append] using hstop
    · refine ⟨[], x :: items, c, heap, rfl, rfl, by rwa [List.append_nil], by rwa [List.append_nil],
        .inr ⟨x, items, e, rfl, by rwa [List.append_nil], ?_⟩⟩
      simp only [insertMany, hx]

/-! ### What holds after each insertion -/

variable [BEq K] [Allocator A] {f : S → K → UInt64} {c₀ c' : Keyed s K V A S} {heap' : Heap A}

/-- What was built from `c₀` while nothing was refused. -/
structure Ongoing (f : S → K → UInt64) (c₀ c : Keyed s K V A S) (heap : Heap A) : Prop where
  reached : Reached f c heap
  generous : s.overflow = true → heap.Generous
  builder : c.builder = c₀.builder
  scale : ∃ n, c.table.scale = (Table.Scale.next s)^[n] c₀.table.scale

namespace Ongoing

theorem refl (h : Reached f c heap) (hg : s.overflow = true → heap.Generous) :
    Ongoing f c c heap := ⟨h, hg, rfl, 0, rfl⟩

/-- From one start on, as many entries have as many buckets. -/
theorem scale_eq {d : Keyed s K V A S} {later : Heap A} (h : Ongoing f c₀ c heap)
    {d₀ : Keyed s K V A S} (h' : Ongoing f d₀ d later)
    (hstart : d₀.table.scale = c₀.table.scale) (hsize : c.size = d.size) :
    c.table.scale = d.table.scale := by
  obtain ⟨n, hn⟩ := h.scale
  obtain ⟨n', hn'⟩ := h'.scale
  have hc : c.size = c₀.size + n :=
    (congrArg Table.Scale.size hn).trans (Table.Scale.size_iterate _ _ n)
  have hd : d.size = d₀.size + n' :=
    (congrArg Table.Scale.size hn').trans (Table.Scale.size_iterate _ _ n')
  have hstart' : d₀.size = c₀.size := congrArg Table.Scale.size hstart
  obtain rfl : n = n' := by omega
  rw [hn, hn', hstart]

variable (h : Ongoing f c₀ c heap)
include h

theorem took (hs : c.Step f heap c' heap') (hb : c'.builder = c.builder)
    (hscale : c'.table.scale = c.table.scale.next s) (hserves : heap'.serves = heap.serves) :
    Ongoing f c₀ c' heap' := by
  obtain ⟨n, hn⟩ := h.scale
  refine ⟨h.reached.step hs, fun ho => (h.generous ho).of_serves hserves, hb.trans h.builder,
    n + 1, ?_⟩
  rw [hscale, hn, Function.iterate_succ_apply']

theorem same (hs : c.Step f heap c' heap) (hb : c'.builder = c.builder)
    (hscale : c'.table.scale = c.table.scale) : Ongoing f c₀ c' heap :=
  ⟨h.reached.step hs, h.generous, hb.trans h.builder, hscale ▸ h.scale⟩

variable [EquivBEq K] (hf : Hashing.Faithful f)
include hf

theorem room : s.shortage c.size = none := by
  unfold Table.Shape.shortage
  cases ho : s.overflow with
  | true => rfl
  | false => simp [(h.reached.withinCapacity ho hf).size_le]

theorem takes_add (k : K) (v : V) : c.Takes heap (k, v) (Map.add (.ofFun f) c k v heap) := by
  obtain ⟨rows, others, hp⟩ := h.reached.placed hf
  exact Keyed.takes_add hp.stores (h.reached.tuned hf) h.generous (.ofFun f) k v

theorem takes_insertBeside (k : K) (v : V) :
    c.Takes heap (k, v) (Multimap.insert (.ofFun f) c k v heap) := by
  obtain ⟨rows, others, hp⟩ := h.reached.placed hf
  exact Keyed.takes_insertBeside hp.stores (h.reached.tuned hf) h.generous (.ofFun f) k v

end Ongoing

end Keyed

namespace Multimap

variable {s : Table.Shape} {K V A S : Type} [BEq K] [EquivBEq K] [Allocator A]
  {f : S → K → UInt64} {c₀ c : Multimap s K V A S} {heap : Heap A} {before : List (K × V)}

/-- Every item has an entry. -/
def Holding (f : S → K → UInt64) (c₀ c : Multimap s K V A S) (heap : Heap A)
    (items : List (K × V)) : Prop := Keyed.Ongoing f c₀ c heap ∧ c.toList.Perm items

theorem Holding.fills (hf : Hashing.Faithful f) (x : K × V) (h : Holding f c₀ c heap before) :
    c.Fills (insertion (.ofFun f)) (fun items => s.shortage items.length) (Holding f c₀) before x
      heap := by
  obtain ⟨k, v⟩ := x
  obtain ⟨ho, hperm⟩ := h
  have htakes := ho.takes_insertBeside hf k v
  have hs : c.Step f heap _ _ := .multimap_insertion (k, v) c heap
  obtain ⟨rows, others, hp⟩ := ho.reached.placed hf
  have hlength : (before ++ [(k, v)]).length = c.size + 1 := by
    rw [hp.size_eq, hperm.length_eq, List.length_append, List.length_singleton]
  unfold Keyed.Fills
  simp only [insertion] at hs ⊢
  rw [hlength]
  generalize Multimap.insert (.ofFun f) c k v heap = out at htakes hs ⊢
  cases htakes with
  | denied shortage => exact .inr ⟨_, rfl, shortage⟩
  | @added _ c' heap' room perm builder scale serves =>
    have ho' := ho.took hs builder scale serves
    refine .inl ⟨c', heap', rfl, ⟨ho', perm.trans ?_⟩, room⟩
    exact (hperm.cons (k, v)).trans (List.perm_append_singleton _ _).symm

end Multimap

namespace KeyBag

variable {s : Table.Shape} {K A S : Type} [BEq K] [EquivBEq K] [Allocator A] {f : S → K → UInt64}
  {c₀ c : KeyBag s K A S} {heap : Heap A} {before : List K}

/-- Every item is a stored key. -/
def Holding (f : S → K → UInt64) (c₀ c : KeyBag s K A S) (heap : Heap A) (items : List K) : Prop :=
  Multimap.Holding f c₀ c heap (KeySet.entries items)

theorem Holding.fills (hf : Hashing.Faithful f) (k : K) (h : Holding f c₀ c heap before) :
    c.Fills (insertion (.ofFun f)) (fun items => s.shortage items.length) (Holding f c₀) before k
      heap := by
  have hentries : KeySet.entries (before ++ [k]) = KeySet.entries before ++ [(k, ())] :=
    List.map_append
  have hlength : (KeySet.entries before ++ [(k, ())]).length = (before ++ [k]).length := by
    rw [← hentries, KeySet.entries, List.length_map]
  have hfills := Multimap.Holding.fills hf (k, ()) h
  unfold Keyed.Fills at hfills ⊢
  simp only [hlength] at hfills
  simp only [Holding, hentries]
  exact hfills

end KeyBag

namespace Map

variable {s : Table.Shape} {K V A S : Type} [BEq K] [EquivBEq K] [Allocator A]
  {f : S → K → UInt64} {c₀ c c' : Map s K V A S} {heap heap' : Heap A} {ref before : List (K × V)}

/-- Every key among the items has one entry, with the last value and the first key. -/
def Holding (f : S → K → UInt64) (c₀ c : Map s K V A S) (heap : Heap A) (items : List (K × V)) :
    Prop := Keyed.Ongoing f c₀ c heap ∧ ∃ ref, Models f c heap ref ∧ Reflects ref items

/-- The shortage after one more item. -/
theorem shortage_concat (hm : Models f c heap ref) (hr : Reflects ref before) (e : K × V) :
    s.shortage ((before ++ [e]).map Prod.fst).eraseDups.length =
      s.shortage (if (ref.find? (hasKey e.1)).isSome then c.size else c.size + 1) := by
  rw [hr.keys_concat, hm.size, hr.length_eq]
  split <;> simp

/-- An entry that was added to a model of the items so far is a model of one more. -/
theorem Models.took {k : K} {v : V} (h : Models f c heap ref)
    (hnone : ref.find? (hasKey k) = none) {q : Ref}
    (hadd : Map.add (.ofFun f) c k v heap = (.ok q, c', heap')) :
    Models f c' heap' ((k, v) :: ref) := by
  have hadded := h.add hnone v
  rw [hadd] at hadded
  cases hadded with
  | granted _ models _ => exact models

theorem Holding.fills (hf : Hashing.Faithful f) (x : K × V) (h : Holding f c₀ c heap before) :
    c.Fills (insertion (.ofFun f)) (fun items => s.shortage (items.map Prod.fst).eraseDups.length)
      (Holding f c₀) before x heap := by
  obtain ⟨k, v⟩ := x
  obtain ⟨ho, ref, hm, hr⟩ := h
  have hs : c.Step f heap _ _ := .map_insertion (k, v) c heap
  have hshortage := shortage_concat hm hr (k, v)
  unfold Keyed.Fills
  simp only [hshortage]
  simp only [insertion, insert] at hs ⊢
  rcases hm.hit_or_miss hf k with ⟨hnone, -, hl⟩ | ⟨rows, others, pre, cell, post, hp, hit, hfind⟩
  · have htakes := ho.takes_add hf k v
    have hmodels : ∀ q m later, Map.add (.ofFun f) c k v heap = (.ok q, m, later) →
        Models f m later ((k, v) :: ref) := fun q m later => hm.took hnone
    simp only [hl, hnone, Option.isSome_none, Bool.false_eq_true, if_false] at hs ⊢
    generalize Map.add (.ofFun f) c k v heap = out at htakes hmodels hs ⊢
    cases htakes with
    | denied shortage => exact .inr ⟨_, rfl, shortage⟩
    | @added q c' heap' room perm builder scale serves =>
      have ho' := ho.took hs builder scale serves
      exact .inl ⟨c', heap', rfl, ⟨ho', _, hmodels _ _ _ rfl, hr.absent hnone⟩, room⟩
  · simp only [hit.locate?, hfind, Option.isSome_some, if_true] at hs ⊢
    have hset := hm.set hf hp hit (g := fun e => (e.1, v)) fun e he => he
    have hpresent := hr.present (e := (k, v)) hfind
    exact .inl ⟨_, _, rfl, ⟨ho.same hs rfl rfl, _, hset, hpresent⟩, ho.room hf⟩

end Map

namespace KeySet

variable {s : Table.Shape} {K A S : Type} [BEq K] [EquivBEq K] [Allocator A] {f : S → K → UInt64}
  {c₀ c : KeySet s K A S} {heap : Heap A} {before : List K}

/-- The first of equal items is stored. -/
def Holding (f : S → K → UInt64) (c₀ c : KeySet s K A S) (heap : Heap A) (items : List K) : Prop :=
  Map.Holding f c₀ c heap (entries items)

omit [EquivBEq K] in
/-- Without values there is nothing to overwrite. -/
theorem changeFirst_unit (k : K) : ∀ l : List (K × Unit),
    changeFirst (hasKey k) (fun d => (d.1, ())) l = l
  | [] => rfl
  | d :: l => by
    rw [changeFirst, changeFirst_unit k l]
    split <;> rfl

theorem Holding.fills (hf : Hashing.Faithful f) (k : K) (h : Holding f c₀ c heap before) :
    c.Fills (insertion (.ofFun f)) (fun items => s.shortage items.eraseDups.length) (Holding f c₀)
      before k heap := by
  obtain ⟨ho, ref, hm, hr⟩ := h
  have hs : c.Step f heap _ _ := .keySet_insertion k c heap
  have hentries : entries (before ++ [k]) = entries before ++ [(k, ())] := List.map_append
  have hkeys : (entries (before ++ [k])).map Prod.fst = before ++ [k] := by
    rw [entries, List.map_map]
    exact List.map_id _
  have hshortage := Map.shortage_concat hm hr (k, ())
  rw [← hentries, hkeys] at hshortage
  unfold Keyed.Fills
  simp only [hshortage, Holding, hentries]
  simp only [insertion, insert, Map.insertIfNew] at hs ⊢
  rcases hm.hit_or_miss hf k with ⟨hnone, hl, -⟩ | ⟨rows, others, pre, cell, post, hp, hit, hfind⟩
  · have htakes := ho.takes_add hf k ()
    have hmodels : ∀ q m later, Map.add (.ofFun f) c k () heap = (.ok q, m, later) →
        Map.Models f m later ((k, ()) :: ref) := fun q m later => hm.took hnone
    simp only [hl, hnone, Option.isSome_none, Bool.false_eq_true, if_false] at hs ⊢
    generalize Map.add (.ofFun f) c k () heap = out at htakes hmodels hs ⊢
    cases htakes with
    | denied shortage => exact .inr ⟨_, rfl, shortage⟩
    | @added q c' heap' room perm builder scale serves =>
      have ho' := ho.took hs builder scale serves
      exact .inl ⟨c', heap', rfl, ⟨ho', _, hmodels _ _ _ rfl, hr.absent hnone⟩, room⟩
  · simp only [hit.find?, hfind, Option.isSome_some, if_true] at hs ⊢
    have hpresent := hr.present (e := (k, ())) hfind
    rw [changeFirst_unit] at hpresent
    exact .inl ⟨_, _, rfl, ⟨ho, _, hm, hpresent⟩, ho.room hf⟩

end KeySet

end ArenaHash
