import ArenaHash.Proofs.Pool.Live
import ArenaHash.Table.Basic

/-!
# What is left in slots

A pool that forgot its slots still holds what was last put into them. `nodes.Resembles nodes'`: the
two differ in nothing but the contents of slots that have not been handed out since. Nothing leads
to such a slot (`Closed`), and it is written before it is read, so both pools do the same from then
on.
-/

namespace ArenaHash

/-- Two outcomes with one heap, and states that are related. -/
structure Echoes {X A : Type} (R : X → X → Prop) (out out' : X × Heap A) : Prop where
  state : R out.1 out'.1
  heap : out'.2 = out.2

/-- And with one answer. -/
structure Repeats {ρ X A : Type} (R : X → X → Prop) (out out' : ρ × X × Heap A) : Prop where
  answer : out'.1 = out.1
  echoes : Echoes R out.2 out'.2

theorem Repeats.map {ρ τ X A : Type} {R : X → X → Prop} {out out' : ρ × X × Heap A}
    (h : Repeats R out out') (g : ρ → τ) : Repeats R (g out.1, out.2) (g out'.1, out'.2) :=
  ⟨congrArg g h.answer, h.echoes⟩

theorem Repeats.elim {ρ X A : Type} {R : X → X → Prop} {out out' : ρ × X × Heap A}
    (h : Repeats R out out') :
    ∃ answer x x' heap, out = (answer, x, heap) ∧ out' = (answer, x', heap) ∧ R x x' :=
  ⟨out.1, out.2.1, out'.2.1, out.2.2, rfl, Prod.ext h.answer (Prod.ext rfl h.echoes.heap),
    h.echoes.state⟩

namespace Pool

variable {p : Shape} {T A : Type}

/-- The slot is an overflow block or has been handed out. -/
def Owns (nodes : Pool p (Node T) A) (q : Ref) : Prop :=
  ∀ i, q = .inline i → i < nodes.untouched

/-- Links lead to slots that have been handed out. -/
structure Closed (nodes : Pool p (Node T) A) : Prop where
  free : ∀ i ∈ nodes.freeList, i < nodes.untouched
  links : ∀ i < nodes.untouched, ∀ j ∈ nodes.linkAt i, j < nodes.untouched
  nexts : ∀ q, nodes.Owns q → ∀ r ∈ nodes.next q, nodes.Owns r

/-- The pools differ in slots that have not been handed out, and in nothing else. -/
structure Resembles (nodes nodes' : Pool p (Node T) A) : Prop where
  same : nodes' = { nodes with slots := nodes'.slots }
  slots : ∀ i < nodes.untouched, nodes'.slots[i]? = nodes.slots[i]?
  closed : nodes.Closed

variable {nodes nodes' : Pool p (Node T) A} {q r : Ref} {n : Node T}

theorem owns_overflow (nodes : Pool p (Node T) A) (b : Block) : nodes.Owns (.overflow b) := nofun

theorem owns_inline {i : Nat} : nodes.Owns (.inline i) ↔ i < nodes.untouched := by
  constructor
  · exact fun h => h i rfl
  · rintro h j ⟨⟩
    exact h

theorem owns_of_le {m : Pool p (Node T) A} (hle : nodes.untouched ≤ m.untouched)
    (hq : nodes.Owns q) : m.Owns q :=
  fun i hi => Nat.lt_of_lt_of_le (hq i hi) hle

theorem untouched_write (nodes : Pool p (Node T) A) (q : Ref) (n : Node T) :
    (nodes.write q n).untouched = nodes.untouched := by
  cases q <;> rfl

theorem untouched_modify (nodes : Pool p (Node T) A) (q : Ref) (f : Node T → Node T) :
    (nodes.modify q f).untouched = nodes.untouched := by
  unfold modify
  split
  · exact nodes.untouched_write _ _
  · rfl

theorem untouched_free [Allocator A] (nodes : Pool p (Node T) A) (q : Ref) (heap : Heap A) :
    (nodes.free q heap).1.untouched = nodes.untouched := by
  cases q <;> rfl

/-- A node that is written takes the place of a link. -/
theorem linkAt_write (nodes : Pool p (Node T) A) (q : Ref) (n : Node T) (i : Nat) :
    (nodes.write q n).linkAt i = if q = .inline i then none else nodes.linkAt i := by
  cases q with
  | overflow b => rfl
  | inline k =>
    by_cases hki : k = i
    · subst hki
      rw [if_pos rfl, linkAt, write, Vector.getElem?_setIfInBounds_self]
      split <;> simp_all
    · rw [if_neg (fun h => hki (Handle.inline.inj h)), linkAt, linkAt, write,
        Vector.getElem?_setIfInBounds_ne hki]

theorem read_write_cases (nodes : Pool p (Node T) A) (q : Ref) (n : Node T) (r : Ref) :
    (nodes.write q n).read r = nodes.read r ∨ (nodes.write q n).read r = some n := by
  cases q with
  | overflow b =>
    rw [nodes.read_write fun _ hi => by cases hi]
    split
    · exact .inr rfl
    · exact .inl rfl
  | inline i =>
    rcases Nat.lt_or_ge i p.capacity with hi | hi
    · rw [nodes.read_write fun j hj => Handle.inline.inj hj ▸ hi]
      split
      · exact .inr rfl
      · exact .inl rfl
    · left
      rw [write, Vector.setIfInBounds_eq_of_size_le hi]

namespace Closed

theorem write (h : nodes.Closed) (q : Ref) (hn : ∀ r ∈ n.next, nodes.Owns r) :
    (nodes.write q n).Closed := by
  have huntouched := nodes.untouched_write q n
  refine ⟨?_, ?_, ?_⟩
  · rw [huntouched]
    cases q <;> exact h.free
  · intro i hi j hj
    rw [huntouched] at hi ⊢
    rw [linkAt_write] at hj
    split at hj
    · cases hj
    · exact h.links i hi j hj
  · intro r hr r' hr'
    unfold Owns at hr ⊢
    rw [huntouched] at hr ⊢
    unfold next at hr'
    rcases nodes.read_write_cases q n r with heq | heq <;> rw [heq] at hr'
    · exact h.nexts r hr r' hr'
    · exact hn r' hr'

/-- A slot that is handed out for the first time is given a node. -/
theorem touch (h : nodes.Closed) (hn : ∀ r ∈ n.next, nodes.Owns r) :
    (Pool.write { nodes with
      untouched := nodes.untouched + 1
      inlineLive := nodes.inlineLive + 1 } (.inline nodes.untouched) n).Closed := by
  refine ⟨fun i hi => Nat.lt_succ_of_lt (h.free i hi), fun i hi j hj => ?_, fun q hq r hr => ?_⟩
  · rw [linkAt_write] at hj
    split at hj
    · cases hj
    · next hne =>
      have hi' : i < nodes.untouched :=
        Nat.lt_of_le_of_ne (Nat.le_of_lt_succ hi) fun heq => hne (heq ▸ rfl)
      exact Nat.lt_succ_of_lt (h.links i hi' j hj)
  · have hgrow : ∀ q, nodes.Owns q → ∀ i, q = .inline i → i < nodes.untouched + 1 :=
      fun q hq i hi => Nat.lt_succ_of_lt (hq i hi)
    by_cases hqu : q = .inline nodes.untouched
    · subst hqu
      rw [next, read, Pool.write, Vector.getElem?_setIfInBounds_self] at hr
      split at hr
      · exact hgrow r (hn r hr)
      · cases hr
    · have hq' : nodes.Owns q := fun i hi =>
        Nat.lt_of_le_of_ne (Nat.le_of_lt_succ (hq i hi)) fun heq => hqu (heq ▸ hi)
      have hsame : (Pool.write { nodes with
          untouched := nodes.untouched + 1
          inlineLive := nodes.inlineLive + 1 } (.inline nodes.untouched) n).read q =
          nodes.read q := by
        cases q with
        | overflow b => rfl
        | inline i =>
          have hne : nodes.untouched ≠ i := fun heq => hqu (heq ▸ rfl)
          rw [read, Pool.write, Vector.getElem?_setIfInBounds_ne hne]
          rfl
      rw [next, hsame] at hr
      exact hgrow r (h.nexts q hq' r hr)

/-- A walk that starts at a slot that was handed out does not leave these. -/
theorem owns_follow (h : nodes.Closed) (limit : Nat) {head : Option Ref}
    (hh : ∀ q ∈ head, nodes.Owns q) : ∀ q ∈ nodes.follow limit head, nodes.Owns q := by
  induction limit generalizing head with
  | zero => cases head <;> exact fun q hq => nomatch hq
  | succ limit ih =>
    cases head with
    | none => exact fun q hq => nomatch hq
    | some q =>
      rw [follow]
      exact List.forall_mem_cons.mpr ⟨hh q rfl, ih (h.nexts q (hh q rfl))⟩

end Closed

namespace Resembles

theorem read_eq (h : nodes.Resembles nodes') (hq : nodes.Owns q) :
    nodes'.read q = nodes.read q := by
  cases q with
  | overflow b => exact congrArg (fun m => m.blocks.read b) h.same
  | inline i => exact congrArg (·.bind Slot.value?) (h.slots i (hq i rfl))

theorem next_eq (h : nodes.Resembles nodes') (hq : nodes.Owns q) :
    nodes'.next q = nodes.next q := by
  rw [next, next, h.read_eq hq]

theorem follow_eq (h : nodes.Resembles nodes') (limit : Nat) {head : Option Ref}
    (hh : ∀ q ∈ head, nodes.Owns q) : nodes'.follow limit head = nodes.follow limit head := by
  induction limit generalizing head with
  | zero => cases head <;> rfl
  | succ limit ih =>
    cases head with
    | none => rfl
    | some q =>
      have hq := hh q rfl
      rw [follow, follow, h.next_eq hq, ih (h.closed.nexts q hq)]

theorem write (h : nodes.Resembles nodes') (q : Ref) (hn : ∀ r ∈ n.next, nodes.Owns r) :
    (nodes.write q n).Resembles (nodes'.write q n) where
  same := by
    rw [h.same]
    cases q <;> rfl
  slots i hi := by
    rw [untouched_write] at hi
    have hslots := h.slots i hi
    cases q with
    | overflow b => exact hslots
    | inline k =>
      by_cases hki : k = i
      · subst hki
        simp only [Pool.write, Vector.getElem?_setIfInBounds_self]
      · simp only [Pool.write, Vector.getElem?_setIfInBounds_ne hki, hslots]
  closed := h.closed.write q hn

theorem modify (h : nodes.Resembles nodes') (hq : nodes.Owns q) {f : Node T → Node T}
    (hf : ∀ n ∈ nodes.read q, ∀ r ∈ (f n).next, nodes.Owns r) :
    (nodes.modify q f).Resembles (nodes'.modify q f) := by
  rw [Pool.modify, Pool.modify, h.read_eq hq]
  cases hr : nodes.read q with
  | none => exact h
  | some n => exact h.write q (hf n hr)

theorem linkAt_eq (h : nodes.Resembles nodes') {i : Nat} (hi : i < nodes.untouched) :
    nodes'.linkAt i = nodes.linkAt i := by
  rw [linkAt, linkAt, h.slots i hi]

/-- A pool that has handed out nothing yet. -/
theorem of_untouched (hsame : nodes' = { nodes with slots := nodes'.slots })
    (huntouched : nodes.untouched = 0) (hfree : nodes.freeList = none)
    (hblocks : nodes.blocks = []) :
    nodes.Resembles nodes' where
  same := hsame
  slots i hi := absurd (huntouched ▸ hi) (Nat.not_lt_zero i)
  closed := by
    have hnone : ∀ i, ¬i < nodes.untouched := fun i hi => Nat.not_lt_zero i (huntouched ▸ hi)
    refine ⟨by simp [hfree], fun i hi => absurd hi (hnone i), fun q hq r hr => ?_⟩
    cases q with
    | inline i => exact absurd (hq i rfl) (hnone i)
    | overflow b =>
      rw [next, read, hblocks] at hr
      cases hr

theorem forget (h : nodes.Resembles nodes') : nodes.forget.Resembles nodes'.forget := by
  refine of_untouched ?_ rfl rfl rfl
  rw [h.same]
  rfl

theorem setDelegate [Allocator A] (h : nodes.Resembles nodes') (delegate : A) :
    (nodes'.setDelegate delegate).1 = (nodes.setDelegate delegate).1 ∧
      (nodes.setDelegate delegate).2.Resembles (nodes'.setDelegate delegate).2 := by
  obtain ⟨slots, rfl⟩ : ∃ slots, nodes' = { nodes with slots } := ⟨_, h.same⟩
  unfold Pool.setDelegate
  simp only
  split
  · exact ⟨rfl, h⟩
  · exact ⟨rfl, rfl, h.slots, ⟨h.closed.free, h.closed.links, h.closed.nexts⟩⟩

end Resembles

/-! ## Slots that come and go -/

section

variable [Allocator A]

/-- Whatever is read after a slot was returned was there before. -/
theorem read_free_cases (nodes : Pool p (Node T) A) (q : Ref) (heap : Heap A) (r : Ref) :
    (nodes.free q heap).1.read r = nodes.read r ∨ (nodes.free q heap).1.read r = none := by
  by_cases hqr : q = r
  · subst hqr
    right
    cases q with
    | inline i =>
      rw [free, read, Vector.getElem?_setIfInBounds_self]
      split <;> rfl
    | overflow b => exact (Blocks.read_erase _ b b).trans (if_pos rfl)
  · exact .inl (nodes.read_free heap hqr)

theorem Closed.free_slot (h : nodes.Closed) (hq : nodes.Owns q) (heap : Heap A) :
    (nodes.free q heap).1.Closed := by
  have hnexts : ∀ r, nodes.Owns r → ∀ s ∈ (nodes.free q heap).1.next r, nodes.Owns s := by
    intro r hr s hs
    unfold next at hs
    rcases nodes.read_free_cases q heap r with heq | heq <;> rw [heq] at hs
    · exact h.nexts r hr s hs
    · cases hs
  cases q with
  | overflow b => exact ⟨h.free, h.links, hnexts⟩
  | inline i =>
    refine ⟨?_, ?_, hnexts⟩
    · rintro j ⟨⟩
      exact hq i rfl
    · intro k hk j hj
      rw [linkAt, Pool.free] at hj
      by_cases hik : i = k
      · subst hik
        rw [Vector.getElem?_setIfInBounds_self] at hj
        split at hj
        · next next heq =>
          split at heq <;> cases heq
          exact h.free j hj
        · cases hj
      · rw [Vector.getElem?_setIfInBounds_ne hik] at hj
        exact h.links k hk j hj

theorem Resembles.free (h : nodes.Resembles nodes') (hq : nodes.Owns q) (heap : Heap A) :
    Echoes Resembles (nodes.free q heap) (nodes'.free q heap) := by
  obtain ⟨slots, rfl⟩ : ∃ slots, nodes' = { nodes with slots } := ⟨_, h.same⟩
  have hclosed := h.closed.free_slot hq heap
  cases q with
  | overflow b => exact ⟨⟨rfl, h.slots, hclosed⟩, rfl⟩
  | inline i =>
    refine ⟨⟨rfl, fun k hk => ?_, hclosed⟩, rfl⟩
    by_cases hik : i = k
    · subst hik
      simp only [Pool.free, Vector.getElem?_setIfInBounds_self]
    · simp only [Pool.free, Vector.getElem?_setIfInBounds_ne hik]
      exact h.slots k hk

/-- A request for a slot does not look at slots that were not handed out. -/
theorem Resembles.alloc_eq (h : nodes.Resembles nodes') (heap : Heap A) :
    nodes'.alloc heap = ((nodes.alloc heap).1,
      { (nodes.alloc heap).2.1 with slots := nodes'.slots }, (nodes.alloc heap).2.2) := by
  obtain ⟨slots, rfl⟩ : ∃ slots, nodes' = { nodes with slots } := ⟨_, h.same⟩
  unfold Pool.alloc
  simp only
  split
  · next i hf =>
    have hlink := h.linkAt_eq (h.closed.free i hf)
    rw [hlink]
  · split
    · rfl
    · split
      · split <;> rfl
      · rfl

theorem Resembles.alloc_ok (h : nodes.Resembles nodes') {heap later : Heap A}
    {m : Pool p (Node T) A} (hr : nodes.alloc heap = (.ok q, m, later)) :
    nodes.untouched ≤ m.untouched ∧ ∀ n : Node T, (∀ r ∈ n.next, nodes.Owns r) →
      (m.write q n).Owns q ∧
        (m.write q n).Resembles (Pool.write { m with slots := nodes'.slots } q n) := by
  obtain ⟨slots, rfl⟩ : ∃ slots, nodes' = { nodes with slots } := ⟨_, h.same⟩
  have hcases := nodes.allocation heap
  rw [hr] at hcases
  cases hcases with
  | @reuse i hf =>
    have hi := h.closed.free i hf
    have hreused : Resembles
        { nodes with freeList := nodes.linkAt i, inlineLive := nodes.inlineLive + 1 }
        { nodes with slots, freeList := nodes.linkAt i, inlineLive := nodes.inlineLive + 1 } :=
      ⟨rfl, h.slots, ⟨h.closed.links i hi, h.closed.links, h.closed.nexts⟩⟩
    exact ⟨Nat.le_refl _, fun n hn => ⟨owns_inline.mpr hi, hreused.write (.inline i) hn⟩⟩
  | touch hf hlt =>
    refine ⟨Nat.le_succ _, fun n hn => ⟨owns_inline.mpr (Nat.lt_succ_self nodes.untouched), rfl,
      fun k hk => ?_, h.closed.touch hn⟩⟩
    by_cases hik : nodes.untouched = k
    · subst hik
      simp only [Pool.write, Vector.getElem?_setIfInBounds_self]
    · simp only [Pool.write, Vector.getElem?_setIfInBounds_ne hik]
      exact h.slots k (Nat.lt_of_le_of_ne (Nat.le_of_lt_succ hk) (Ne.symm hik))
  | spill hf hle ho hserved =>
    have hspilled : Resembles { nodes with overflowLive := nodes.overflowLive + 1 }
        { nodes with slots, overflowLive := nodes.overflowLive + 1 } :=
      ⟨rfl, h.slots, ⟨h.closed.free, h.closed.links, h.closed.nexts⟩⟩
    exact ⟨Nat.le_refl _, fun n hn => ⟨owns_overflow _ _, hspilled.write _ hn⟩⟩

end

end Pool
end ArenaHash
