import ArenaHash.Proofs.Container.KeyBags

/-!
# The order of the values of a key

A new entry is put right after the first one with its key. So the first value of a key stays in
front and the others stand newest first; `oldestFirst` undoes this. Read so, a list of insertions
appends to the values of each key, in the order of the list, whatever is inserted under other keys
in between and however often the bucket array grows.
-/

namespace ArenaHash

open Keyed (hasKey)

section

variable {α β : Type}

/-- Turns round all but the first. -/
def oldestFirst : List α → List α
  | [] => []
  | x :: l => x :: l.reverse

theorem oldestFirst_oldestFirst : ∀ l : List α, oldestFirst (oldestFirst l) = l
  | [] => rfl
  | x :: l => by rw [oldestFirst, oldestFirst, List.reverse_reverse]

theorem oldestFirst_map (g : α → β) : ∀ l : List α, oldestFirst (l.map g) = (oldestFirst l).map g
  | [] => rfl
  | x :: l => by rw [List.map_cons, oldestFirst, oldestFirst, List.map_cons, List.map_reverse]

theorem oldestFirst_push (x : α) : ∀ l : List α, oldestFirst (push x l) = oldestFirst l ++ [x]
  | [] => rfl
  | y :: l => by rw [push, oldestFirst, oldestFirst, List.reverse_cons, List.cons_append]

theorem oldestFirst_foldl_push (xs l : List α) :
    oldestFirst (xs.foldl (fun l x => push x l) l) = oldestFirst l ++ xs := by
  induction xs generalizing l with
  | nil => rw [List.foldl_nil, List.append_nil]
  | cons x xs ih =>
    rw [List.foldl_cons, ih, oldestFirst_push, List.append_assoc, List.singleton_append]

end

variable {K V : Type} [BEq K] [EquivBEq K]

/-- Insertions change the run of a key only by the items with the key. -/
theorem Runs.foldl_push (items : List (K × V)) (R : Runs K V) (k : K) :
    items.foldl (fun R e => R.change e.1 (push e)) R k =
      (items.filter (hasKey k)).foldl (fun run e => push e run) (R k) := by
  induction items generalizing R with
  | nil => rfl
  | cons e items ih =>
    have hchange : R.change e.1 (push e) k = if hasKey k e then push e (R k) else R k := by
      rw [change, BEq.comm, hasKey]
    rw [List.foldl_cons, ih, hchange]
    by_cases he : hasKey k e
    · rw [if_pos he, List.filter_cons_of_pos he, List.foldl_cons]
    · rw [if_neg he, List.filter_cons_of_neg he]

variable {s : Table.Shape} {A S : Type} [Allocator A] {f : S → K → UInt64}
  {m : Multimap s K V A S} {heap : Heap A} {R : Runs K V}

namespace Multimap

/-- Where the values that insertions add to a key are found. -/
theorem getAll_insertMany (hf : Hashing.Faithful f) (h : Run f m heap R) (items : List (K × V))
    (hok : (Keyed.insertMany (insertion (.ofFun f)) m items heap).1 = .ok ()) (k : K) :
    let m' := (Keyed.insertMany (insertion (.ofFun f)) m items heap).2.1
    let added := (items.filter (hasKey k)).map Prod.snd
    oldestFirst (getAll (.ofFun f) m' k) = oldestFirst (getAll (.ofFun f) m k) ++ added ∧
      (getAll (.ofFun f) m k = [] → getAll (.ofFun f) m' k = oldestFirst added) := by
  intro m' added
  have horder :
      oldestFirst (getAll (.ofFun f) m' k) = oldestFirst (getAll (.ofFun f) m k) ++ added := by
    obtain ⟨done, rest, hitems, hrun, hrest⟩ := h.insertMany hf items
    rw [hrest hok, List.append_nil] at hitems
    subst hitems
    rw [((hrun.models hf).shows hf k).getAll, ((h.models hf).shows hf k).getAll,
      Runs.foldl_push, oldestFirst_map, oldestFirst_foldl_push, List.map_append, oldestFirst_map]
  refine ⟨horder, fun hnone => ?_⟩
  rw [hnone, oldestFirst, List.nil_append] at horder
  rw [← horder, oldestFirst_oldestFirst]

/-- Five items, of which three have one key. -/
def fiveInserted : Except MemoryError Unit × Multimap .lax Nat Nat Lender Unit × Heap Lender :=
  Keyed.insertMany (insertion (.ofFun hashByParity)) (.new () .plain)
    [(1, 10), (3, 15), (1, 20), (2, 25), (1, 30)] { serves := fun _ _ _ => true }

theorem getAll_fiveInserted :
    fiveInserted.1 = .ok () ∧
      getAll (.ofFun hashByParity) fiveInserted.2.1 1 = oldestFirst [10, 20, 30] := by
  have hok : fiveInserted.1 = .ok () := by rfl
  have hrun := Run.start (s := .lax) (K := Nat) (V := Nat) (f := hashByParity) () Lender.plain
    (Heap.lends_nil fun _ _ _ => true)
  exact ⟨hok, (getAll_insertMany faithful_hashByParity hrun _ hok 1).2 (by rfl)⟩

/-- The third value comes before the second. -/
theorem getAll_not_in_order :
    fiveInserted.1 = .ok () ∧
      getAll (.ofFun hashByParity) fiveInserted.2.1 1 = [10, 30, 20] ∧
      getAll (.ofFun hashByParity) fiveInserted.2.1 1 ≠
        (([(1, 10), (3, 15), (1, 20), (2, 25), (1, 30)] : List (Nat × Nat)).filter
          (hasKey 1)).map Prod.snd :=
  ⟨by rfl, by rfl, by decide +kernel⟩

end Multimap

end ArenaHash
