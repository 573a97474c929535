import ArenaHash.Proofs.Table.Arrays
import ArenaHash.Table.Basic
import Mathlib.Data.List.Forall2

/-!
# Heaps side by side

`s.bare` is the shape of tables that differ from those of shape `s` in keeping no hashes, so their
nodes may be smaller. What such tables ask of their heaps is the same in order, kind and lender, but
not in the size of a node: the heaps are `Alike`. They remain so as long as their allocators make
the same decisions, request by request (`SameDecisions`). As this can be seen from the events, it is
enough to know it at the end of an operation.
-/

namespace ArenaHash

/-- The same without stored hashes. -/
def Table.Shape.bare (s : Table.Shape) : Table.Shape := { s with caching := .uncached }

inductive Layout.Alike (s : Table.Shape) : Layout → Layout → Prop where
  | same (layout : Layout) : Alike s layout layout
  | node : Alike s s.nodeLayout s.bare.nodeLayout

/-- Up to the size of a node that was refused. -/
inductive MemoryError.Alike (s : Table.Shape) : MemoryError → MemoryError → Prop where
  | same (e : MemoryError) : Alike s e e
  | refused {layout layout' : Layout} (name : String) (h : layout.Alike s layout') :
    Alike s (.refused name layout.size layout.align) (.refused name layout'.size layout'.align)

inductive AlikeAnswer (s : Table.Shape) {α : Type} :
    Except MemoryError α → Except MemoryError α → Prop where
  | ok (a : α) : AlikeAnswer s (.ok a) (.ok a)
  | error {e e' : MemoryError} (h : e.Alike s e') : AlikeAnswer s (.error e) (.error e')

theorem AlikeAnswer.ok_of_eq {s : Table.Shape} {α : Type} {a b : α} (h : b = a) :
    AlikeAnswer s (.ok a) (.ok b) := h ▸ .ok b

theorem AlikeAnswer.map {s : Table.Shape} {α β : Type} {r r' : Except MemoryError α}
    (h : AlikeAnswer s r r') (g : α → β) : AlikeAnswer s (r.map g) (r'.map g) := by
  cases h with
  | ok a => exact .ok (g a)
  | error he => exact .error he

namespace Event

variable {A : Type}

inductive Alike (s : Table.Shape) : Event A → Event A → Prop where
  | served {layout layout' : Layout} (lender : A) (b : Block) (h : layout.Alike s layout') :
    Alike s (.served lender b layout) (.served lender b layout')
  | refused {layout layout' : Layout} (lender : A) (h : layout.Alike s layout') :
    Alike s (.refused lender layout) (.refused lender layout')
  | returned {layout layout' : Layout} (lender : A) (b : Block) (h : layout.Alike s layout') :
    Alike s (.returned lender b layout) (.returned lender b layout')

/-- How a request was decided. -/
def decision? : Event A → Option Bool
  | .served _ _ _ => some true
  | .refused _ _ => some false
  | .returned _ _ _ => none

theorem Alike.decision?_eq {s : Table.Shape} {e e' : Event A} (h : e.Alike s e') :
    e.decision? = e'.decision? := by
  cases h <;> rfl

end Event

namespace Heap

variable {A : Type} {s : Table.Shape} {heap heap' later later' : Heap A}

/-- The same has happened on both heaps. -/
structure Alike (s : Table.Shape) (heap heap' : Heap A) : Prop where
  events : List.Forall₂ (Event.Alike s) heap.events heap'.events
  nextBlock : heap.nextBlock = heap'.nextBlock

/-- How requests were decided so far, newest first. -/
def decisions (heap : Heap A) : List Bool := heap.events.filterMap Event.decision?

/-- The requests that were made on both heaps, in order, were decided alike. -/
def SameDecisions (heap heap' : Heap A) : Prop :=
  heap.decisions <:+ heap'.decisions ∨ heap'.decisions <:+ heap.decisions

/-- `later` has all events of `heap`. -/
def Before (heap later : Heap A) : Prop := heap.events <:+ later.events

@[refl] theorem Before.refl (heap : Heap A) : heap.Before heap := List.suffix_rfl

theorem Before.trans {last : Heap A} (h : heap.Before later) (h' : later.Before last) :
    heap.Before last := List.IsSuffix.trans h h'

/-- If nothing was refused, nothing was refused before or after any moment in between. -/
theorem Before.unrefused [Allocator A] {middle : Heap A} (h : heap.Before middle)
    (h' : middle.Before later) (hr : heap.refusalSince later = none) :
    heap.refusalSince middle = none ∧ middle.refusalSince later = none := by
  obtain ⟨news, hn⟩ := h
  obtain ⟨news', hn'⟩ := h'
  have hall : later.events = (news' ++ news) ++ heap.events := by
    rw [List.append_assoc, hn, hn']
  rw [refusalSince_of_append hall, List.findSome?_append, Option.or_eq_none_iff] at hr
  exact ⟨(refusalSince_of_append hn.symm).trans hr.2, (refusalSince_of_append hn'.symm).trans hr.1⟩

/-- Decisions cannot be undone. -/
theorem SameDecisions.of_later (hsame : later.SameDecisions later') (h : heap.Before later)
    (h' : heap'.Before later') : heap.SameDecisions heap' := by
  have hd : heap.decisions <:+ later.decisions := h.filterMap _
  have hd' : heap'.decisions <:+ later'.decisions := h'.filterMap _
  rcases hsame with hs | hs
  · exact List.suffix_or_suffix_of_suffix (hd.trans hs) hd'
  · exact List.suffix_or_suffix_of_suffix hd (hd'.trans hs)

theorem Alike.decisions_eq (h : heap.Alike s heap') : heap.decisions = heap'.decisions := by
  obtain ⟨he, -⟩ := h
  unfold decisions
  generalize heap.events = es, heap'.events = es' at he
  induction he with
  | nil => rfl
  | cons he _ ih => rw [List.filterMap_cons, List.filterMap_cons, he.decision?_eq, ih]

/-- Two heaps on which the same has happened are told apart by the next decision. -/
theorem not_sameDecisions_cons {ds es es' : List Bool} {b b' : Bool} (hne : b ≠ b')
    (hs : es = b :: ds) (hs' : es' = b' :: ds) : ¬(es <:+ es' ∨ es' <:+ es) := by
  subst hs hs'
  rintro (h | h)
  · exact hne (List.cons.inj (h.eq_of_length rfl)).1
  · exact hne (List.cons.inj (h.eq_of_length rfl)).1.symm

end Heap

/-! ## Outcomes

A state with stored hashes goes with its `bare` counterpart. -/

/-- What is answered along with the heap. -/
def AlikeOutcome (s : Table.Shape) {α A : Type} (out out' : Except MemoryError α × Heap A) : Prop :=
  AlikeAnswer s out.1 out'.1 ∧ out.2.Alike s out'.2

structure Follows (s : Table.Shape) {X Y A : Type} (bare : X → Y) (out : X × Heap A)
    (out' : Y × Heap A) : Prop where
  state : out'.1 = bare out.1
  heap : out.2.Alike s out'.2

structure Matches (s : Table.Shape) {ρ X Y A : Type} (answers : ρ → ρ → Prop) (bare : X → Y)
    (out : ρ × X × Heap A) (out' : ρ × Y × Heap A) : Prop where
  answer : answers out.1 out'.1
  follows : Follows s bare out.2 out'.2

/-- Both outcomes are answers or both are errors. -/
theorem Matches.cases {s : Table.Shape} {α X Y A : Type} {bare : X → Y}
    {out : Except MemoryError α × X × Heap A} {out' : Except MemoryError α × Y × Heap A}
    (h : Matches s (AlikeAnswer s) bare out out') :
    (∃ a x later later', out = (.ok a, x, later) ∧ out' = (.ok a, bare x, later') ∧
      later.Alike s later') ∨
    ∃ e e' x later later', out = (.error e, x, later) ∧ out' = (.error e', bare x, later') ∧
      e.Alike s e' ∧ later.Alike s later' := by
  obtain ⟨r, x, later⟩ := out
  obtain ⟨r', y, later'⟩ := out'
  obtain ⟨ha, rfl, hk⟩ := h
  cases ha with
  | ok a => exact .inl ⟨a, x, later, later', rfl, rfl, hk⟩
  | error he => exact .inr ⟨_, _, x, later, later', rfl, rfl, he, hk⟩

/-- Likewise for something built. -/
theorem AlikeOutcome.cases {s : Table.Shape} {X Y A : Type} {bare : X → Y}
    {out : Except MemoryError X × Heap A} {out' : Except MemoryError Y × Heap A}
    (h : AlikeOutcome s (out.1.map bare, out.2) out') :
    (∃ x later later', out = (.ok x, later) ∧ out' = (.ok (bare x), later') ∧
      later.Alike s later') ∨
    ∃ e e' later later', out = (.error e, later) ∧ out' = (.error e', later') ∧
      e.Alike s e' ∧ later.Alike s later' := by
  obtain ⟨_ | x, later⟩ := out <;> obtain ⟨r', later'⟩ := out' <;> obtain ⟨ha, hk⟩ := h <;> cases ha
  · next he => exact .inr ⟨_, _, later, later', rfl, rfl, he, hk⟩
  · exact .inl ⟨x, later, later', rfl, rfl, hk⟩

/-! ## Requests -/

namespace Heap

variable {A : Type} {s : Table.Shape} {heap heap' : Heap A}

section Requests

variable [Allocator A] (h : heap.Alike s heap') (lender : A) {layout layout' : Layout}
  (hl : layout.Alike s layout')
include h hl

theorem Alike.request
    (hsame : (heap.request lender layout).2.SameDecisions (heap'.request lender layout').2) :
    AlikeOutcome s (heap.request lender layout) (heap'.request lender layout') := by
  have hd := h.decisions_eq
  have hserved : Event.Alike s (.served lender heap.nextBlock layout)
      (.served lender heap'.nextBlock layout') := h.nextBlock ▸ .served lender _ hl
  rcases request_cases heap lender layout with hc | hc <;>
    rcases request_cases heap' lender layout' with hc' | hc' <;> rw [hc, hc'] at hsame ⊢
  · refine ⟨?_, .cons hserved h.events, congrArg (· + 1) h.nextBlock⟩
    rw [h.nextBlock]
    exact .ok _
  · exact absurd hsame (not_sameDecisions_cons Bool.false_ne_true.symm rfl
      (congrArg _ hd.symm))
  · exact absurd hsame (not_sameDecisions_cons Bool.false_ne_true rfl
      (congrArg _ hd.symm))
  · exact ⟨.error (.refused _ hl), .cons (.refused lender hl) h.events, h.nextBlock⟩

omit [Allocator A] in
theorem Alike.giveBack (b : Block) :
    (heap.giveBack lender b layout).Alike s (heap'.giveBack lender b layout') :=
  ⟨.cons (.returned lender b hl) h.events, h.nextBlock⟩

end Requests

theorem before_request [Allocator A] (heap : Heap A) (lender : A) (layout : Layout) :
    heap.Before (heap.request lender layout).2 := by
  rcases request_cases heap lender layout with hc | hc <;> rw [hc] <;>
    exact List.suffix_cons _ _

theorem before_giveBack (heap : Heap A) (lender : A) (b : Block) (layout : Layout) :
    heap.Before (heap.giveBack lender b layout) := List.suffix_cons _ _

end Heap

/-! ## Bucket arrays -/

namespace HeapRow

variable {A : Type} [Allocator A] {s : Table.Shape} {heap heap' : Heap A} (slot : Layout)
  (lender : A)

theorem alloc_alike (h : heap.Alike s heap') (count : Nat)
    (hsame : (alloc (P := Ref) slot count lender heap).2.SameDecisions
      (alloc (P := Ref) slot count lender heap').2) :
    AlikeOutcome s (alloc (P := Ref) slot count lender heap)
      (alloc (P := Ref) slot count lender heap') := by
  cases ha : slot.array? (count + 1) with
  | none =>
    simp only [alloc, ha]
    exact ⟨.error (.same _), h⟩
  | some layout =>
    rw [alloc_eq ha, alloc_eq ha] at hsame ⊢
    obtain ⟨hanswer, hheap⟩ := h.request lender (.same layout) hsame
    exact ⟨hanswer.map _, hheap⟩

theorem before_alloc (count : Nat) (heap : Heap A) :
    heap.Before (alloc (P := Ref) slot count lender heap).2 := by
  cases ha : slot.array? (count + 1) with
  | none =>
    simp only [alloc, ha]
    exact .refl heap
  | some layout =>
    rw [alloc_eq ha]
    exact heap.before_request lender layout

variable (r : Option (HeapRow Ref))

omit [Allocator A] in
theorem release?_alike (h : heap.Alike s heap') :
    (release? slot r lender heap).Alike s (release? slot r lender heap') := by
  cases r with
  | none => exact h
  | some r =>
    simp only [release?, release]
    cases slot.array? (r.row.count + 1) with
    | none => exact h
    | some layout => exact h.giveBack lender (.same layout) r.block

omit [Allocator A] in
theorem before_release? (heap : Heap A) : heap.Before (release? slot r lender heap) := by
  cases r with
  | none => exact .refl heap
  | some r =>
    simp only [release?, release]
    cases slot.array? (r.row.count + 1) with
    | none => exact .refl heap
    | some layout => exact heap.before_giveBack lender r.block layout

end HeapRow

end ArenaHash
