import ArenaHash.Memory.Heap
import Mathlib.Logic.Relation

/-!
# The ledger of overflow memory

`borrowed events b` is the open loan of block `b`: the allocator that served it and its layout.
Events are `Settled` if each block is served under a number of its own and each return closes an
open loan of the same layout, through an allocator that stands for the one that served it. A heap
`Lends` a list of loans if its events are settled and exactly these loans are open. The holder of a
loan may have replaced the allocator by an equal one since, and that one again; `StandsFor` is what
this comes to, and no more than equality if that is an equivalence.
-/

namespace ArenaHash

/-- A chain of allocators leads from one to the other, each equal to the next. -/
def Allocator.StandsFor {A : Type} [Allocator A] : A → A → Prop :=
  Relation.ReflTransGen fun a b => a == b

theorem Allocator.StandsFor.beq {A : Type} [Allocator A] [EquivBEq A] {a b : A}
    (h : StandsFor a b) : a == b := by
  induction h with
  | refl => exact BEq.rfl
  | tail _ hb ih => exact BEq.trans ih hb

/-- A block that has to be returned, the allocator to return it through, and its layout. -/
structure Loan (A : Type) where
  block : Block
  lender : A
  layout : Layout

namespace Event

variable {A : Type}

/-- The block that changes hands. -/
def block? : Event A → Option Block
  | served _ b _ | returned _ b _ => some b
  | refused _ _ => none

/-- The error that a refusal is answered with. -/
def refusal? [Allocator A] : Event A → Option MemoryError
  | refused lender layout => some (.refused (Allocator.name lender) layout.size layout.align)
  | _ => none

def isReturnOf (b : Block) : Event A → Bool
  | returned _ c _ => c == b
  | _ => false

end Event

namespace Heap

section

variable {A : Type}

def borrowed : List (Event A) → Block → Option (A × Layout)
  | [], _ => none
  | .served lender c layout :: es, b => if c = b then some (lender, layout) else borrowed es b
  | .returned _ c _ :: es, b => if c = b then none else borrowed es b
  | .refused _ _ :: es, b => borrowed es b

theorem borrowed_of_unnamed {es : List (Event A)} {b : Block}
    (h : ∀ e ∈ es, e.block? ≠ some b) : borrowed es b = none := by
  induction es with
  | nil => rfl
  | cons e es ih =>
    have hes := ih fun e he => h e (List.mem_cons_of_mem _ he)
    have he := h e List.mem_cons_self
    cases e with
    | served l c layout => simpa [borrowed, hes, Event.block?] using he
    | refused l layout => exact hes
    | returned l c layout => simp [borrowed, hes]

theorem named_of_borrowed {es : List (Event A)} {b : Block} (h : (borrowed es b).isSome) :
    ∃ e ∈ es, e.block? = some b := by
  apply Classical.byContradiction
  intro hn
  rw [borrowed_of_unnamed fun e he hb => hn ⟨e, he, hb⟩] at h
  cases h

/-- An open loan was served and has not been returned. -/
theorem served_mem_of_borrowed {es : List (Event A)} {b : Block} {server : A} {layout : Layout}
    (h : borrowed es b = some (server, layout)) : .served server b layout ∈ es := by
  induction es with
  | nil => cases h
  | cons e es ih =>
    cases e with
    | served l c lay =>
      unfold borrowed at h
      split at h
      · rename_i hc
        cases h
        subst hc
        exact List.mem_cons_self
      · exact List.mem_cons_of_mem _ (ih h)
    | refused l lay => exact List.mem_cons_of_mem _ (ih h)
    | returned l c lay =>
      unfold borrowed at h
      split at h
      · cases h
      · exact List.mem_cons_of_mem _ (ih h)

/-- The loan of a block that was served and has not been returned is open. -/
theorem borrowed_isSome_of_served {es : List (Event A)} {b : Block} {server : A} {layout : Layout}
    (hs : .served server b layout ∈ es) (hn : ∀ lender layout, .returned lender b layout ∉ es) :
    (borrowed es b).isSome := by
  induction es with
  | nil => cases hs
  | cons e es ih =>
    have hrest : .served server b layout ∈ es → (borrowed es b).isSome := fun hs =>
      ih hs fun l lay hm => hn l lay (List.mem_cons_of_mem _ hm)
    cases e with
    | served l c lay =>
      unfold borrowed
      split
      · rfl
      · next hc =>
        refine hrest ((List.mem_cons.mp hs).resolve_left fun heq => hc ?_)
        cases heq
        rfl
    | refused l lay => exact hrest ((List.mem_cons.mp hs).resolve_left nofun)
    | returned l c lay =>
      have hc : c ≠ b := fun hc => hn l lay (hc ▸ List.mem_cons_self)
      simp only [borrowed, hc, if_false]
      exact hrest ((List.mem_cons.mp hs).resolve_left nofun)

end

variable {A : Type} [Allocator A]

def Settled : List (Event A) → Prop
  | [] => True
  | .served _ b _ :: es => (∀ e ∈ es, e.block? ≠ some b) ∧ Settled es
  | .returned lender b layout :: es =>
    (∃ server, borrowed es b = some (server, layout) ∧ Allocator.StandsFor lender server) ∧
      Settled es
  | .refused _ _ :: es => Settled es

structure Lends (heap : Heap A) (loans : List (Loan A)) : Prop where
  settled : Settled heap.events
  numbered : ∀ e ∈ heap.events, ∀ b, e.block? = some b → b < heap.nextBlock
  nodup : (loans.map Loan.block).Nodup
  isOpen : ∀ x ∈ loans, ∃ server,
    borrowed heap.events x.block = some (server, x.layout) ∧
      Allocator.StandsFor x.lender server
  complete : ∀ b, (borrowed heap.events b).isSome → b ∈ loans.map Loan.block

/-! ## Settled events -/

/-- Once a loan is closed its block is never named again by a settled continuation, and while
it is open it has not been returned. -/
theorem Settled.returns {es : List (Event A)} (h : Settled es) (b : Block) :
    es.countP (Event.isReturnOf b) ≤ 1 ∧
      ((borrowed es b).isSome → es.countP (Event.isReturnOf b) = 0) := by
  induction es with
  | nil => simp
  | cons e es ih =>
    cases e with
    | served l c lay =>
      obtain ⟨hnew, hes⟩ := h
      obtain ⟨h1, h0⟩ := ih hes
      simp only [List.countP_cons, Event.isReturnOf, Bool.false_eq_true, if_false, Nat.add_zero]
      refine ⟨h1, ?_⟩
      intro hb
      by_cases hc : c = b
      · subst hc
        rw [List.countP_eq_zero]
        intro e he
        have hne := hnew e he
        cases e <;> simp_all [Event.isReturnOf, Event.block?]
      · simp only [borrowed, hc, if_false] at hb
        exact h0 hb
    | refused l lay =>
      simpa [List.countP_cons, Event.isReturnOf, borrowed] using ih h
    | returned l c lay =>
      obtain ⟨⟨server, hopen, -⟩, hes⟩ := h
      obtain ⟨h1, h0⟩ := ih hes
      by_cases hc : c = b
      · subst hc
        have hzero := h0 (by rw [hopen]; rfl)
        rw [List.countP_cons, hzero]
        simp [Event.isReturnOf, borrowed]
      · have hreturn : Event.isReturnOf b (.returned l c lay) = false := by
          simpa [Event.isReturnOf] using hc
        rw [List.countP_cons, hreturn]
        simpa only [Bool.false_eq_true, if_false, Nat.add_zero, borrowed, hc] using ⟨h1, h0⟩

theorem Settled.of_append {es fs : List (Event A)} (h : Settled (es ++ fs)) : Settled fs := by
  induction es with
  | nil => exact h
  | cons e es ih =>
    cases e with
    | served l c lay => exact ih h.2
    | refused l lay => exact ih h
    | returned l c lay => exact ih h.2

/-- A returned block was served before, with the same layout. -/
theorem Settled.served_of_returned {later earlier : List (Event A)} {lender : A} {b : Block}
    {layout : Layout} (h : Settled (later ++ .returned lender b layout :: earlier)) :
    ∃ server, .served server b layout ∈ earlier ∧ Allocator.StandsFor lender server := by
  obtain ⟨⟨server, hopen, heq⟩, -⟩ := h.of_append
  exact ⟨server, served_mem_of_borrowed hopen, heq⟩

/-- No block is served twice. -/
theorem Settled.served_unique {es : List (Event A)} (h : Settled es) {b : Block}
    {server server' : A} {layout layout' : Layout} (hs : .served server b layout ∈ es)
    (hs' : .served server' b layout' ∈ es) : server = server' ∧ layout = layout' := by
  induction es with
  | nil => cases hs
  | cons e es ih =>
    rcases List.mem_cons.mp hs with rfl | hm
    · rcases List.mem_cons.mp hs' with heq | hm'
      · cases heq
        exact ⟨rfl, rfl⟩
      · have hne := h.1 _ hm'
        exact (hne rfl).elim
    · rcases List.mem_cons.mp hs' with rfl | hm'
      · have hne := h.1 _ hm
        exact (hne rfl).elim
      · exact ih ((show Settled ([e] ++ es) from h).of_append) hm hm'

/-- A block that was served and has not been returned. -/
def Outstanding (heap : Heap A) (b : Block) : Prop :=
  (∃ server layout, .served server b layout ∈ heap.events) ∧
    ∀ lender layout, .returned lender b layout ∉ heap.events

theorem Settled.outstanding_iff {heap : Heap A} (h : Settled heap.events) (b : Block) :
    heap.Outstanding b ↔ (borrowed heap.events b).isSome := by
  constructor
  · rintro ⟨⟨server, layout, hs⟩, hn⟩
    exact borrowed_isSome_of_served hs hn
  · intro hb
    obtain ⟨⟨server, layout⟩, hopen⟩ := Option.isSome_iff_exists.mp hb
    refine ⟨⟨server, layout, served_mem_of_borrowed hopen⟩, ?_⟩
    intro l lay hm
    have hzero := List.countP_eq_zero.mp ((h.returns b).2 hb) _ hm
    simp [Event.isReturnOf] at hzero

/-! ## Lending -/

variable {heap : Heap A} {loans : List (Loan A)}

theorem lends_nil (serves : List (Event A) → A → Layout → Bool) :
    Lends ({ serves } : Heap A) [] where
  settled := trivial
  numbered := by simp
  nodup := List.nodup_nil
  isOpen := by simp
  complete := by simp [borrowed]

theorem Lends.perm {loans' : List (Loan A)} (h : heap.Lends loans) (hp : loans.Perm loans') :
    heap.Lends loans' where
  settled := h.settled
  numbered := h.numbered
  nodup := (hp.map _).nodup h.nodup
  isOpen x hx := h.isOpen x (hp.mem_iff.mpr hx)
  complete b hb := (hp.map Loan.block).mem_iff.mp (h.complete b hb)

/-- Exactly the blocks on loan are outstanding. -/
theorem Lends.outstanding_iff (h : heap.Lends loans) (b : Block) :
    heap.Outstanding b ↔ b ∈ loans.map Loan.block := by
  rw [h.settled.outstanding_iff]
  refine ⟨h.complete b, ?_⟩
  intro hb
  obtain ⟨x, hx, rfl⟩ := List.mem_map.mp hb
  obtain ⟨server, hopen, -⟩ := h.isOpen x hx
  rw [hopen]
  rfl

/-- The blocks that are out are numbered below the next one. -/
theorem Lends.block_lt (h : heap.Lends loans) {x : Loan A} (hx : x ∈ loans) :
    x.block < heap.nextBlock := by
  obtain ⟨server, hopen, -⟩ := h.isOpen x hx
  have hnamed : ∃ e ∈ heap.events, e.block? = some x.block :=
    named_of_borrowed (by rw [hopen]; rfl)
  obtain ⟨e, he, hb⟩ := hnamed
  exact h.numbered e he _ hb

/-- What a request comes to. -/
theorem request_cases (heap : Heap A) (lender : A) (layout : Layout) :
    heap.request lender layout =
        (.ok heap.nextBlock,
          { heap with
            events := .served lender heap.nextBlock layout :: heap.events
            nextBlock := heap.nextBlock + 1 }) ∨
      heap.request lender layout =
        (.error (.refused (Allocator.name lender) layout.size layout.align),
          { heap with events := .refused lender layout :: heap.events }) := by
  unfold request
  split
  · exact .inl rfl
  · exact .inr rfl

theorem nextBlock_request_le (heap : Heap A) (lender : A) (layout : Layout) :
    heap.nextBlock ≤ (heap.request lender layout).2.nextBlock := by
  rcases request_cases heap lender layout with hc | hc <;> simp [hc]

theorem Lends.serve (h : heap.Lends loans) (lender : A) (layout : Layout) :
    Lends
      { heap with
        events := .served lender heap.nextBlock layout :: heap.events
        nextBlock := heap.nextBlock + 1 }
      (⟨heap.nextBlock, lender, layout⟩ :: loans) where
  settled := by
    exact ⟨fun e he hb => Nat.lt_irrefl _ (h.numbered e he _ hb), h.settled⟩
  numbered := by
    intro e he b hb
    simp only at he ⊢
    rcases List.mem_cons.mp he with rfl | he
    · cases hb
      exact Nat.lt_succ_self _
    · exact Nat.lt_succ_of_lt (h.numbered e he b hb)
  nodup := by
    refine List.nodup_cons.mpr ⟨?_, h.nodup⟩
    intro hm
    obtain ⟨x, hx, hb⟩ := List.mem_map.mp hm
    exact absurd hb (Nat.ne_of_lt (h.block_lt hx))
  isOpen := by
    intro x hx
    rcases List.mem_cons.mp hx with rfl | hx
    · exact ⟨lender, by simp [borrowed], .refl⟩
    · obtain ⟨server, hopen, heq⟩ := h.isOpen x hx
      have hne : heap.nextBlock ≠ x.block := Nat.ne_of_gt (h.block_lt hx)
      exact ⟨server, by simp [borrowed, hne, hopen], heq⟩
  complete := by
    intro b hb
    unfold borrowed at hb
    split at hb
    · rename_i heq
      subst heq
      exact List.mem_cons_self
    · exact List.mem_cons_of_mem _ (h.complete b hb)

theorem Lends.refuse (h : heap.Lends loans) (lender : A) (layout : Layout) :
    Lends { heap with events := .refused lender layout :: heap.events } loans where
  settled := h.settled
  numbered := by
    intro e he b hb
    rcases List.mem_cons.mp he with rfl | he
    · cases hb
    · exact h.numbered e he b hb
  nodup := h.nodup
  isOpen := h.isOpen
  complete := h.complete

theorem Lends.giveBack {x : Loan A} (h : heap.Lends (x :: loans)) :
    (heap.giveBack x.lender x.block x.layout).Lends loans where
  settled := ⟨h.isOpen x List.mem_cons_self, h.settled⟩
  numbered := by
    intro e he b hb
    rcases List.mem_cons.mp he with rfl | he
    · cases hb
      exact h.block_lt List.mem_cons_self
    · exact h.numbered e he b hb
  nodup := (List.nodup_cons.mp h.nodup).2
  isOpen := by
    intro y hy
    obtain ⟨server, hopen, heq⟩ := h.isOpen y (List.mem_cons_of_mem _ hy)
    have hne : x.block ≠ y.block := fun hxy =>
      (List.nodup_cons.mp h.nodup).1 (List.mem_map.mpr ⟨y, hy, hxy.symm⟩)
    exact ⟨server, by simp [Heap.giveBack, borrowed, hne, hopen], heq⟩
  complete := by
    intro b hb
    unfold Heap.giveBack borrowed at hb
    split at hb
    · cases hb
    · rename_i hne
      rcases List.mem_cons.mp (h.complete b hb) with rfl | hm
      · exact absurd rfl hne
      · exact hm

omit [Allocator A] in
/-- Takes back what was lent, one loan after the other. -/
def repay (heap : Heap A) (loans : List (Loan A)) : Heap A :=
  loans.foldl (fun heap x => heap.giveBack x.lender x.block x.layout) heap

omit [Allocator A] in
theorem repay_append (heap : Heap A) (xs ys : List (Loan A)) :
    heap.repay (xs ++ ys) = (heap.repay xs).repay ys := List.foldl_append

omit [Allocator A] in
theorem events_repay (heap : Heap A) (xs : List (Loan A)) :
    (heap.repay xs).events =
      (xs.map fun x => .returned x.lender x.block x.layout).reverse ++ heap.events := by
  induction xs generalizing heap with
  | nil => rfl
  | cons x xs ih =>
    rw [repay, List.foldl_cons]
    refine (ih _).trans ?_
    simp [giveBack]

theorem Lends.repay {held : List (Loan A)} (h : heap.Lends (held ++ loans)) :
    (heap.repay held).Lends loans := by
  induction held generalizing heap with
  | nil => exact h
  | cons x held ih => exact ih h.giveBack

/-- What was repaid is no longer out, and everything else is as before. -/
theorem Lends.outstanding_repay {paid : List (Loan A)} (h : heap.Lends (paid ++ loans))
    (b : Block) :
    (heap.repay paid).Outstanding b ↔ heap.Outstanding b ∧ b ∉ paid.map Loan.block := by
  have hnodup := h.nodup
  rw [List.map_append] at hnodup
  have hapart := (List.nodup_append.mp hnodup).2.2
  rw [h.repay.outstanding_iff, h.outstanding_iff, List.map_append, List.mem_append]
  constructor
  · exact fun hb => ⟨.inr hb, fun hpaid => hapart b hpaid b hb rfl⟩
  · exact fun ⟨hb, hpaid⟩ => hb.resolve_left hpaid

/-- A holder may turn to an allocator that is equal to the one it used before. -/
theorem Lends.relend {held held' : List (Loan A)} (lender : A)
    (hheld : held' = held.map fun x => { x with lender })
    (heq : ∀ x ∈ held, lender == x.lender) (h : heap.Lends (held ++ loans)) :
    heap.Lends (held' ++ loans) where
  settled := h.settled
  numbered := h.numbered
  nodup := by simpa [hheld, Function.comp_def] using h.nodup
  isOpen := by
    intro x hx
    rcases List.mem_append.mp hx with hx | hx
    · rw [hheld] at hx
      obtain ⟨y, hy, rfl⟩ := List.mem_map.mp hx
      obtain ⟨server, hopen, hs⟩ := h.isOpen y (List.mem_append_left _ hy)
      exact ⟨server, hopen, .head (heq y hy) hs⟩
    · exact h.isOpen x (List.mem_append_right _ hx)
  complete := by
    intro b hb
    simpa [hheld, Function.comp_def] using h.complete b hb

/-! ## Refusals -/

/-- `later` is `heap` after some more events, and `refusal` is the last refusal among these. -/
def Continues (heap later : Heap A) (refusal : Option MemoryError) : Prop :=
  later.serves = heap.serves ∧ ∃ news, later.events = news ++ heap.events ∧
    news.findSome? Event.refusal? = refusal

/-- The last refusal among the events that `later` has more than `heap`. -/
def refusalSince (heap later : Heap A) : Option MemoryError :=
  (later.events.take (later.events.length - heap.events.length)).findSome? Event.refusal?

theorem refusalSince_of_append {heap later : Heap A} {news : List (Event A)}
    (h : later.events = news ++ heap.events) :
    heap.refusalSince later = news.findSome? Event.refusal? := by
  simp [refusalSince, h]

theorem Continues.refusalSince {heap later : Heap A} {r : Option MemoryError}
    (h : heap.Continues later r) : heap.refusalSince later = r := by
  obtain ⟨-, news, hn, hr⟩ := h
  exact (refusalSince_of_append hn).trans hr

theorem Continues.refl (heap : Heap A) : heap.Continues heap none := ⟨rfl, [], rfl, rfl⟩

theorem Continues.trans {heap middle later : Heap A} {q r : Option MemoryError}
    (h : heap.Continues middle q) (h' : middle.Continues later r) :
    heap.Continues later (r.or q) := by
  obtain ⟨hs, news, hn, hq⟩ := h
  obtain ⟨hs', news', hn', hr⟩ := h'
  refine ⟨hs'.trans hs, news' ++ news, ?_, ?_⟩
  · rw [hn', hn, List.append_assoc]
  · rw [List.findSome?_append, hr, hq]

theorem Continues.giveBack (heap : Heap A) (lender : A) (b : Block) (layout : Layout) :
    heap.Continues (heap.giveBack lender b layout) none :=
  ⟨rfl, [.returned lender b layout], rfl, rfl⟩

theorem continues_of_request_ok {lender : A} {layout : Layout} {b : Block} {later : Heap A}
    (h : heap.request lender layout = (.ok b, later)) : heap.Continues later none := by
  rcases request_cases heap lender layout with hc | hc <;> rw [hc] at h
  · cases h
    exact ⟨rfl, [.served lender heap.nextBlock layout], rfl, rfl⟩
  · cases h

theorem continues_of_request_error {lender : A} {layout : Layout} {e : MemoryError}
    {later : Heap A} (h : heap.request lender layout = (.error e, later)) :
    heap.Continues later (some e) := by
  rcases request_cases heap lender layout with hc | hc <;> rw [hc] at h
  · cases h
  · cases h
    exact ⟨rfl, [.refused lender layout], rfl, rfl⟩

theorem Lends.request_ok (hl : heap.Lends loans) {lender : A} {layout : Layout}
    {b : Block} {later : Heap A} (h : heap.request lender layout = (.ok b, later)) :
    b = heap.nextBlock ∧ later.Lends (⟨b, lender, layout⟩ :: loans) := by
  rcases request_cases heap lender layout with hc | hc <;> rw [hc] at h
  · cases h
    exact ⟨rfl, hl.serve lender layout⟩
  · cases h

theorem Lends.request_error (hl : heap.Lends loans) {lender : A} {layout : Layout}
    {e : MemoryError} {later : Heap A} (h : heap.request lender layout = (.error e, later)) :
    later.Lends loans := by
  rcases request_cases heap lender layout with hc | hc <;> rw [hc] at h
  · cases h
  · cases h
    exact hl.refuse lender layout

/-! ## Returns -/

/-- `later` is `heap` after blocks were returned, and nothing else happened. -/
inductive TakesBack (heap : Heap A) : Heap A → Prop where
  | refl : TakesBack heap heap
  | giveBack {later : Heap A} (h : TakesBack heap later) (lender : A) (b : Block)
    (layout : Layout) : TakesBack heap (later.giveBack lender b layout)

omit [Allocator A] in
theorem TakesBack.trans {heap middle later : Heap A} (h : heap.TakesBack middle)
    (h' : middle.TakesBack later) : heap.TakesBack later := by
  induction h' with
  | refl => exact h
  | giveBack _ lender b layout ih => exact ih.giveBack lender b layout

theorem TakesBack.continues {heap later : Heap A} (h : heap.TakesBack later) :
    heap.Continues later none := by
  induction h with
  | refl => exact .refl heap
  | giveBack _ lender b layout ih => exact ih.trans (.giveBack _ lender b layout)

omit [Allocator A] in
theorem takesBack_repay (heap : Heap A) (xs : List (Loan A)) : heap.TakesBack (heap.repay xs) := by
  induction xs generalizing heap with
  | nil => exact .refl
  | cons x xs ih => exact (TakesBack.refl.giveBack x.lender x.block x.layout).trans (ih _)

omit [Allocator A] in
/-- Returns open no loan. -/
theorem TakesBack.borrowed {heap later : Heap A} (h : heap.TakesBack later) {b : Block}
    (hb : (Heap.borrowed later.events b).isSome) : (Heap.borrowed heap.events b).isSome := by
  induction h with
  | refl => exact hb
  | giveBack _ lender c layout ih =>
    apply ih
    unfold Heap.giveBack Heap.borrowed at hb
    split at hb
    · cases hb
    · exact hb

/-- If the same loans are open before and after returns, nothing was returned. -/
theorem TakesBack.eq_of_lends {heap later : Heap A} (h : heap.TakesBack later)
    (hl : heap.Lends loans) (hl' : later.Lends loans) : later = heap := by
  cases h with
  | refl => rfl
  | @giveBack middle h lender b layout =>
    obtain ⟨⟨server, hopen, -⟩, -⟩ := hl'.settled
    have hb := hl.complete b (h.borrowed (by rw [hopen]; rfl))
    obtain ⟨x, hx, rfl⟩ := List.mem_map.mp hb
    obtain ⟨server', hopen', -⟩ := hl'.isOpen x hx
    simp [Heap.giveBack, Heap.borrowed] at hopen'

/-! ## Quiet heaps -/

/-- A heap that was asked for nothing lends nothing. -/
theorem Lends.eq_nil_of_quiet {heap : Heap A} (hl : heap.Lends loans)
    (hquiet : heap.events = []) : loans = [] := by
  cases loans with
  | nil => rfl
  | cons x loans =>
    obtain ⟨server, hopen, -⟩ := hl.isOpen x List.mem_cons_self
    rw [hquiet] at hopen
    cases hopen

/-- Where nothing was served nothing can be returned. -/
theorem TakesBack.eq_of_quiet {heap later : Heap A} (h : heap.TakesBack later)
    (hquiet : heap.events = []) (hs : Settled later.events) : later = heap := by
  cases h with
  | refl => rfl
  | giveBack h lender b layout =>
    obtain ⟨⟨server, hopen, -⟩, -⟩ := hs
    have hb := h.borrowed (b := b) (by rw [hopen]; rfl)
    rw [hquiet] at hb
    cases hb

end Heap

end ArenaHash
