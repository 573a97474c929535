import ArenaHash.Proofs.Pool.StackBump
import Mathlib.Logic.Function.Basic

/-!
# What live slots hold

A free slot keeps a link where a live one keeps its element, and slots of both kinds lie next to
each other in one array. `p.Written r last heap` extends the books of a run by what was last written
into each slot since it was handed out. Whatever was handed out, returned and written elsewhere in
the meantime, a live slot holds just that (`Written.read`).
-/

namespace ArenaHash

namespace StackBump

variable {A : Type} [Allocator A]

/-- The slot that is handed out is live, besides those that were. -/
theorem live_alloc (s : Pool.Shape) (r : StackBump A) (heap : Heap A) :
    (r.alloc s heap).2.1.live = (r.alloc s heap).1.toOption.toList ++ r.live := by
  unfold StackBump.alloc
  split
  · rfl
  · split
    · rfl
    · split
      · split <;> rfl
      · rfl

theorem live_setDelegate (r : StackBump A) (delegate : A) :
    (r.setDelegate delegate).2.live = r.live := by
  unfold StackBump.setDelegate
  split <;> rfl

theorem live_free (s : Pool.Shape) (r : StackBump A) (q : Ref) (heap : Heap A) :
    (r.free s q heap).1.live = r.live.erase q := by
  cases q <;> rfl

end StackBump

namespace Pool

variable {s : Shape} {α A : Type} [Allocator A]

/-- Handing out a slot changes what is in none. -/
theorem read_alloc (p : Pool s α A) (heap : Heap A) (q : Ref) :
    (p.alloc heap).2.1.read q = p.read q := by
  have hcases := allocation p heap
  generalize p.alloc heap = out at hcases
  cases hcases with
  | reuse | touch | spill | refused | full => cases q <;> rfl

omit [Allocator A] in
/-- No slot is read through the overflow allocator. -/
theorem read_relend (p : Pool s α A) (delegate : A) (q : Ref) :
    Pool.read { p with delegate } q = p.read q := by
  cases q <;> rfl

theorem read_setDelegate (p : Pool s α A) (delegate : A) (q : Ref) :
    (p.setDelegate delegate).2.read q = p.read q := by
  unfold Pool.setDelegate
  split
  · rfl
  · exact p.read_relend delegate q

/-- Nothing has been written yet into a slot that was just handed out. -/
def afterAlloc (last : Ref → Option α) : Except MemoryError Ref → Ref → Option α
  | .ok q => Function.update last q none
  | .error _ => last

/-- A pool and its books after the same calls, what was last written into each slot since it was
handed out, and the heap that the pool has come to. -/
inductive Written : Pool s α A → StackBump A → (Ref → Option α) → Heap A → Prop where
  | new (delegate : A) {heap : Heap A} {others : List (Loan A)} (hl : heap.Lends others) :
    Written (.new delegate) (.new delegate) (fun _ => none) heap
  | alloc {p : Pool s α A} {r : StackBump A} {last : Ref → Option α} {heap : Heap A}
    (h : Written p r last heap) :
    Written (p.alloc heap).2.1 (r.alloc s heap).2.1 (afterAlloc last (p.alloc heap).1)
      (p.alloc heap).2.2
  | free {p : Pool s α A} {r : StackBump A} {last : Ref → Option α} {heap : Heap A}
    (h : Written p r last heap) {q : Ref} (hq : q ∈ r.live) :
    Written (p.free q heap).1 (r.free s q heap).1 last (p.free q heap).2
  | write {p : Pool s α A} {r : StackBump A} {last : Ref → Option α} {heap : Heap A}
    (h : Written p r last heap) {q : Ref} (hq : q ∈ r.live) (v : α) :
    Written (p.write q v) r (Function.update last q (some v)) heap
  | forget {p : Pool s α A} {r : StackBump A} {last : Ref → Option α} {heap : Heap A}
    (h : Written p r last heap) : Written p.forget r.forget last heap
  | setDelegate {p : Pool s α A} {r : StackBump A} {last : Ref → Option α} {heap : Heap A}
    (h : Written p r last heap) (delegate : A) :
    Written (p.setDelegate delegate).2 (r.setDelegate delegate).2 last heap
  /-- Others used the heap. -/
  | elsewhere {p : Pool s α A} {r : StackBump A} {last : Ref → Option α} {heap heap' : Heap A}
    {others : List (Loan A)} (h : Written p r last heap)
    (hl : heap'.Lends (p.loans r.live ++ others)) : Written p r last heap'

variable {p : Pool s α A} {r : StackBump A} {last : Ref → Option α} {heap : Heap A}

theorem Written.run (h : Written p r last heap) : Run p r heap := by
  induction h with
  | new delegate hl => exact .new delegate hl
  | alloc _ ih => exact ih.alloc
  | free _ hq ih => exact ih.free hq
  | write _ hq v ih => exact ih.write hq v
  | forget _ ih => exact ih.forget
  | setDelegate _ delegate ih => exact ih.setDelegate delegate
  | elsewhere _ hl ih => exact ih.elsewhere hl

/-- A live slot holds what was last written into it. -/
theorem Written.read (h : Written p r last heap) :
    ∀ q ∈ r.live, ∀ v, last q = some v → p.read q = some v := by
  induction h with
  | new delegate hl => exact fun _ _ _ => nofun
  | @alloc p r last heap h ih =>
    obtain ⟨others, href⟩ := h.run.refines
    intro q hq v hv
    rw [read_alloc]
    rw [StackBump.live_alloc, ← href.alloc.1] at hq
    cases halloc : (p.alloc heap).1 with
    | error e =>
      rw [halloc] at hq hv
      exact ih q hq v hv
    | ok new =>
      rw [halloc] at hq hv
      have hne : q ≠ new := by
        rintro rfl
        simp [afterAlloc] at hv
      rw [afterAlloc, Function.update_of_ne hne] at hv
      exact ih q (List.mem_of_ne_of_mem hne hq) v hv
  | @free p r last heap h freed hfreed ih =>
    obtain ⟨others, href⟩ := h.run.refines
    intro q hq v hv
    rw [StackBump.live_free] at hq
    have hne : freed ≠ q := by
      rintro rfl
      exact href.holds.nodup.not_mem_erase hq
    rw [read_free p heap hne]
    exact ih q (List.mem_of_mem_erase hq) v hv
  | @write p r last heap h target htarget w ih =>
    obtain ⟨others, href⟩ := h.run.refines
    intro q hq v hv
    rw [read_write p (href.holds.lt_capacity htarget)]
    by_cases hne : target = q
    · rw [hne, Function.update_self] at hv
      rw [if_pos hne, hv]
    · rw [Function.update_of_ne (Ne.symm hne)] at hv
      rw [if_neg hne]
      exact ih q hq v hv
  | forget h ih => exact fun _ hq => nomatch hq
  | @setDelegate p r last heap h delegate ih =>
    intro q hq v hv
    rw [StackBump.live_setDelegate] at hq
    rw [read_setDelegate]
    exact ih q hq v hv
  | elsewhere h hl ih => exact ih

end Pool

end ArenaHash
