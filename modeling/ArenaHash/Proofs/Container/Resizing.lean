import ArenaHash.Proofs.Container.Plans

/-!
# How the number of buckets changes

In a `Coherent` table the bucket array and the growth plan agree: the array is the inline one with
the bucket count of the shape, or a grown one whose bucket count is a larger one of the primes, and
the limit of the plan is what the present bucket count carries under the present load factor.
`Resizing` says what a call may do to the bucket count. An insertion may enlarge it, even one that
fails, and `renew` and `abandon` go back to the inline array; nothing else changes it. None of this
depends on what the hashes are.
-/

namespace ArenaHash

/-- What becomes of the number of buckets. -/
inductive Resizing where
  | keep
  | grow
  | rewind
  deriving DecidableEq

namespace Table

variable {s : Shape} {T A : Type} {t t' t'' : Table s T A}

/-- Bucket array and growth plan agree. -/
structure Coherent (t : Table s T A) : Prop where
  array : t.buckets.isGrown = false ∧ t.bucketCount = s.buckets ∨
    t.buckets.isGrown = true ∧ t.bucketCount ∈ primes ∧ s.buckets < t.bucketCount
  limit : t.growth.limit = Growth.limitFor t.growth.maxLoad t.bucketCount
  strict : s.overflow = false → t.buckets.isGrown = false

theorem Coherent.tuned (h : t.Coherent) : t.Tuned where
  retarget := by rw [Growth.retarget, ← h.limit]
  fixed := h.strict

theorem coherent_new (delegate : A) : (new delegate : Table s T A).Coherent where
  array := .inl ⟨rfl, HeadRow.count_empty _⟩
  limit := (congrArg Growth.limit (tuned_new delegate).retarget).symm
  strict _ := rfl

end Table

/-- A table before and after something that may do this to the number of buckets. -/
def Resizing.Allows {s : Table.Shape} {T A : Type} (r : Resizing) (t t' : Table s T A) : Prop :=
  match r with
  | keep => t'.buckets.isGrown = t.buckets.isGrown ∧ t'.bucketCount = t.bucketCount
  | grow => t'.buckets.isGrown = t.buckets.isGrown ∧ t'.bucketCount = t.bucketCount ∨
      t'.buckets.isGrown = true ∧ t'.bucketCount ∈ primes ∧ t.bucketCount < t'.bucketCount
  | rewind => t'.buckets.isGrown = false ∧ t'.bucketCount = s.buckets

namespace Table

open Resizing

variable {s : Shape} {T A : Type} {t t' t'' : Table s T A}

theorem SamePlan.allows_keep (h : t.SamePlan t') : keep.Allows t t' := ⟨h.isGrown, h.bucketCount⟩

theorem SamePlan.allows_grow (h : t.SamePlan t') : grow.Allows t t' := .inl h.allows_keep

theorem allows_grow_trans (h : grow.Allows t t') (h' : grow.Allows t' t'') :
    grow.Allows t t'' := by
  rcases h' with ⟨hgrown', hcount'⟩ | ⟨hgrown', hmem', hlt'⟩
  · rw [Allows, hgrown', hcount']
    exact h
  · refine .inr ⟨hgrown', hmem', ?_⟩
    rcases h with ⟨-, hcount⟩ | ⟨-, -, hlt⟩
    · exact hcount ▸ hlt'
    · exact hlt.trans hlt'

/-- What may be done to the bucket count keeps a table coherent if its plan follows. -/
theorem Coherent.resized {r : Resizing} (h : t.Coherent) (hr : r.Allows t t') (ht : t'.Tuned) :
    t'.Coherent where
  array := by
    cases r with
    | keep => rw [hr.1, hr.2]; exact h.array
    | grow =>
      rcases hr with ⟨hgrown, hcount⟩ | ⟨hgrown, hmem, hlt⟩
      · rw [hgrown, hcount]
        exact h.array
      · refine .inr ⟨hgrown, hmem, ?_⟩
        rcases h.array with ⟨-, hcount⟩ | ⟨-, -, hlt'⟩
        · exact hcount ▸ hlt
        · exact hlt'.trans hlt
    | rewind => exact .inl hr
  limit := (congrArg Growth.limit ht.retarget).symm
  strict := ht.fixed

variable [Allocator A] {heap : Heap A} {rows : Rows T} {others : List (Loan A)}
  {hasher : Ref → T → UInt64}

theorem Room.allows {result : Except MemoryError Unit × Table s T A × Heap A}
    (h : Room t hasher heap result) : grow.Allows t result.2.1 := by
  cases h with
  | enough | refused => exact (SamePlan.refl t).allows_grow
  | @grown count t' _ _ due redistributed =>
    have hadvise : t.growth.advise t.bucketCount t.size 1 =
        (some count, (t.growth.advise t.bucketCount t.size 1).2) := by
      unfold due? at due
      rw [if_pos (overflow_of_due due)] at due
      rw [← due]
    refine .inr ⟨redistributed.isGrown, ?_, ?_⟩ <;> rw [redistributed.bucketCount]
    · exact Growth.advise_mem_primes hadvise
    · exact Growth.lt_of_advise hadvise

theorem Tuned.allows_of_roomed (ht : t.Tuned) (h : t.Stores heap rows [] others)
    (hr : t.Roomed hasher heap t') : grow.Allows t t' := by
  rcases hr with hsame | hsame
  · exact hsame.allows_grow
  · exact allows_grow_trans (ht.room h hasher).allows hsame.allows_grow

end Table

/-! ## Calls -/

variable {s : Table.Shape} {K V A S : Type} {ρ : Type}

def Keyed.Call.resizing : Keyed.Call K V ρ → Resizing
  | .renew | .abandon => .rewind
  | _ => .keep

def Map.Call.resizing : Map.Call K V ρ → Resizing
  | .insert _ _ | .insertIfNew _ _ _ | .replace _ _ => .grow
  | .count _ => .keep
  | .common call => call.resizing

def Multimap.Call.resizing : Multimap.Call K V ρ → Resizing
  | .insert _ _ => .grow
  | .count _ | .equalRun _ | .eraseAll _ => .keep
  | .common call => call.resizing

namespace Keyed

variable [BEq K] [Allocator A] {c : Keyed s K V A S} {heap : Heap A} {rows : Rows (K × V)}
  {others : List (Loan A)} (H : Hashing S K) (h : c.table.Stores heap rows [] others)
include h

theorem perform_allows (call : Call K V ρ) :
    call.resizing.Allows c.table (perform H c heap call).2.1.table := by
  cases call with
  | renew => exact ⟨rfl, h.renew.keeps.bucketCount_eq rfl⟩
  | abandon => exact ⟨rfl, h.abandon.keeps.bucketCount_eq rfl⟩
  | setMaxLoad maxLoad =>
    refine ⟨?_, Table.bucketCount_setMaxLoad _ _⟩
    simp only [perform, setMaxLoad, Table.setMaxLoad]
    split
    · split <;> rfl
    · rfl
  | _ => exact (perform_releases H c heap rfl).allows_keep

variable (ht : c.table.Tuned)
include ht

theorem map_allows (call : Map.Call K V ρ) :
    call.resizing.Allows c.table (Map.perform H c heap call).2.1.table := by
  cases call with
  | insert k v => exact ht.allows_of_roomed h (roomed_insert H c heap k v)
  | insertIfNew k v g => exact ht.allows_of_roomed h (roomed_insertIfNew_call H c heap k v g)
  | replace k v => exact ht.allows_of_roomed h (roomed_replace H c heap k v)
  | count k => exact (Table.SamePlan.refl _).allows_keep
  | common call => exact perform_allows H h call

theorem multimap_allows (call : Multimap.Call K V ρ) :
    call.resizing.Allows c.table (Multimap.perform H c heap call).2.1.table := by
  cases call with
  | insert k v => exact ht.allows_of_roomed h (roomed_insertBeside H c heap k v)
  | count k | equalRun k => exact (Table.SamePlan.refl _).allows_keep
  | eraseAll k => exact (Table.Releases.eraseUpTo _ _ _ _ heap).allows_keep
  | common call => exact perform_allows H h call

end Keyed

end ArenaHash
