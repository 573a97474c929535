import ArenaHash.Proofs.System.Resizing

/-!
# Systems that stay within inline memory

A frugal run takes the steps of a system, with containers that may overflow, and at no time attempts
to add an entry to a container whose inline slots and buckets do not hold one more. In such a run
nothing is ever requested of the heap (`FrugalRun.within_capacity`). The invariant is that the heap
has seen no event: then no container owes anything, so each has all its entries inline and its plan
asks for no more buckets before the inline ones are all taken.
-/

namespace ArenaHash

variable {F : Profile} {A : Type} [Allocator A]

/-- Containers that may overflow, with no more buckets than load factors count exactly. -/
structure Profile.Lax (F : Profile) : Prop where
  overflow : F.shape.overflow = true
  buckets_le : F.shape.buckets ≤ 2 ^ 24

def Item.Frugal (item : Item F) (c : F.Container A) : Prop :=
  match item.manner with
  | .overwrite | .keep => c.contains item.hashing item.key = false → c.size < F.shape.room
  | .beside => c.size < F.shape.room

/-- Each item is frugal when its turn comes. -/
def FrugalItems : F.Container A → Heap A → List (Item F) → Prop
  | _, _, [] => True
  | c, heap, item :: items => item.Frugal c ∧
    ∀ c' heap', Item.insert c item heap = (.ok (), c', heap') → FrugalItems c' heap' items

def Action.Frugal (c : F.Container A) (heap : Heap A) : Action F A → Prop
  | map H call => call.Frugal H c
  | multimap _ call => call.Frugal c
  | extend items => FrugalItems c heap items
  | pop _ | setDelegate _ => True

/-- A frugal action leaves the load factor at the default one. -/
theorem Action.Frugal.loads {c : F.Container A} {heap : Heap A} {action : Action F A}
    (h : action.Frugal c heap) : action.Loads (· = Growth.defaultLoad) c := by
  cases action with
  | map H call => exact Keyed.loads_of_frugal_map h
  | multimap H call => exact Keyed.loads_of_frugal_multimap h
  | _ => trivial

/-! ## One container -/

section

variable {c : F.Container A} {heap : Heap A} {rows : Rows (F.Key × F.Value)}
  {others : List (Loan A)} (hF : F.Lax) (hquiet : heap.events = [])

section

variable (h : c.table.Stores heap rows [] others) (ht : c.table.Tuned)
  (hload : c.table.growth.maxLoad = Growth.defaultLoad)
include hF hquiet h ht hload

theorem Item.insert_quiet (item : Item F) (hitem : item.Frugal c) :
    (Item.insert c item heap).2.2 = heap := by
  have hb := h.asBuilt hquiet hload
  unfold Item.Frugal at hitem
  unfold Item.insert
  cases hm : item.manner with
  | overwrite =>
    rw [hm] at hitem
    exact Keyed.heap_insert item.hashing h fun hmiss =>
      Keyed.heap_add_inline item.hashing h ht hb hF.buckets_le (hitem hmiss) _ _
  | keep =>
    rw [hm] at hitem
    exact Keyed.heap_insertIfNew item.hashing h fun hmiss =>
      Keyed.heap_add_inline item.hashing h ht hb hF.buckets_le (hitem hmiss) _ _
  | beside =>
    rw [hm] at hitem
    exact h.heap_insertBeside_inline ht hb hF.buckets_le hitem _ _ _

theorem insertMany_quiet (items : List (Item F)) (hitems : FrugalItems c heap items) :
    (Keyed.insertMany Item.insert c items heap).2.2 = heap := by
  induction items generalizing c rows with
  | nil => rfl
  | cons item items ih =>
    have hheap := item.insert_quiet hF hquiet h ht hload hitems.1
    have hroomed := item.insert_roomed c heap
    have htuned := ht.roomed h hroomed
    have hload' := (ht.maxLoad_roomed h hroomed).trans hload
    obtain ⟨rows', hs⟩ := item.insert_stores h
    unfold Keyed.insertMany
    rcases hi : Item.insert c item heap with ⟨e | _, c', heap'⟩ <;>
      rw [hi] at hheap htuned hload' hs <;> simp only at hheap <;> subst hheap
    · rfl
    · exact ih hs htuned hload' (hitems.2 _ _ hi)

theorem Action.takesBack (action : Action F A) (hfrugal : action.Frugal c heap) :
    heap.TakesBack (action.run c heap).2 := by
  have hb := h.asBuilt hquiet hload
  cases action with
  | map H call => exact Keyed.map_takesBack H h ht hb hF.buckets_le call hfrugal
  | multimap H call => exact Keyed.multimap_takesBack H h ht hb hF.buckets_le call hfrugal
  | extend items =>
    have hheap := insertMany_quiet hF hquiet h ht hload items hfrugal
    simp only [run, hheap]
    exact .refl
  | pop position => exact (Table.Releases.pop _ position heap).returns
  | setDelegate delegate => exact .refl

end

end

namespace System

/-- The steps of a system of containers that may overflow, without an attempt to add an entry for
which there is no inline memory. -/
inductive FrugalStep : System A → System A → Prop where
  | build {Cs : List (Σ F : Profile, F.Container A)} {heap : Heap A} {lost : List (Loan A)}
    {F : Profile} (hF : F.Lax) (builder : F.Builder) (delegate : A) :
    FrugalStep ⟨Cs, heap, lost⟩ ⟨⟨F, .new builder delegate⟩ :: Cs, heap, lost⟩
  | collect {Cs : List (Σ F : Profile, F.Container A)} {heap heap' : Heap A}
    {lost : List (Loan A)} {F : Profile} (hF : F.Lax) {builder : F.Builder} {delegate : A}
    {items : List (Item F)} {c : F.Container A}
    (hitems : FrugalItems (.new builder delegate) heap items)
    (h : Keyed.ofList Item.insert builder delegate items heap = (.ok c, heap')) :
    FrugalStep ⟨Cs, heap, lost⟩ ⟨⟨F, c⟩ :: Cs, heap', lost⟩
  | collectFailed {Cs : List (Σ F : Profile, F.Container A)} {heap heap' : Heap A}
    {lost : List (Loan A)} {F : Profile} (hF : F.Lax) {builder : F.Builder} {delegate : A}
    {items : List (Item F)} {e : MemoryError}
    (hitems : FrugalItems (.new builder delegate) heap items)
    (h : Keyed.ofList Item.insert builder delegate items heap = (.error e, heap')) :
    FrugalStep ⟨Cs, heap, lost⟩ ⟨Cs, heap', lost⟩
  | act {pre post : List (Σ F : Profile, F.Container A)} {heap : Heap A} {lost : List (Loan A)}
    {F : Profile} {c : F.Container A} (action : Action F A) (haction : action.Frugal c heap) :
    FrugalStep ⟨pre ++ ⟨F, c⟩ :: post, heap, lost⟩
      ⟨pre ++ ⟨F, (action.run c heap).1⟩ :: post, (action.run c heap).2,
        action.abandoned c ++ lost⟩
  | copy {Cs : List (Σ F : Profile, F.Container A)} {heap heap' : Heap A} {lost : List (Loan A)}
    {F : Profile} {c copy : F.Container A} (hc : ⟨F, c⟩ ∈ Cs)
    (h : c.copy heap = (.ok copy, heap')) :
    FrugalStep ⟨Cs, heap, lost⟩ ⟨⟨F, copy⟩ :: Cs, heap', lost⟩
  | copyFailed {Cs : List (Σ F : Profile, F.Container A)} {heap heap' : Heap A}
    {lost : List (Loan A)} {F : Profile} {c : F.Container A} {e : MemoryError} (hc : ⟨F, c⟩ ∈ Cs)
    (h : c.copy heap = (.error e, heap')) :
    FrugalStep ⟨Cs, heap, lost⟩ ⟨Cs, heap', lost⟩
  | copyFrom {pre post : List (Σ F : Profile, F.Container A)} {heap heap' : Heap A}
    {lost : List (Loan A)} {F : Profile} {target source copy : F.Container A}
    (hs : ⟨F, source⟩ ∈ pre ++ post) (h : source.copy heap = (.ok copy, heap')) :
    FrugalStep ⟨pre ++ ⟨F, target⟩ :: post, heap, lost⟩
      ⟨pre ++ ⟨F, copy⟩ :: post, target.dispose heap', lost⟩
  | swap {pre mid post : List (Σ F : Profile, F.Container A)} {heap : Heap A}
    {lost : List (Loan A)} {C D : Σ F : Profile, F.Container A} :
    FrugalStep ⟨pre ++ C :: mid ++ D :: post, heap, lost⟩
      ⟨pre ++ D :: mid ++ C :: post, heap, lost⟩
  | drop {pre post : List (Σ F : Profile, F.Container A)} {heap : Heap A} {lost : List (Loan A)}
    {F : Profile} {c : F.Container A} :
    FrugalStep ⟨pre ++ ⟨F, c⟩ :: post, heap, lost⟩ ⟨pre ++ post, c.dispose heap, lost⟩

inductive FrugalRun : System A → Prop where
  | start (serves : List (Event A) → A → Layout → Bool) : FrugalRun ⟨[], { serves }, []⟩
  | step {w w' : System A} (h : FrugalRun w) (hs : FrugalStep w w') : FrugalRun w'

variable {w w' : System A}

theorem FrugalStep.step (hs : FrugalStep w w') : Step w w' := by
  cases hs with
  | build hF builder delegate => exact .build _ builder delegate
  | collect _ _ h => exact .collect h
  | collectFailed _ _ h => exact .collectFailed h
  | act action => exact .act action
  | copy hc h => exact .copy hc h
  | copyFailed hc h => exact .copyFailed hc h
  | copyFrom hs h => exact .copyFrom hs h
  | swap => exact .swap
  | drop => exact .drop

theorem FrugalRun.reachable (h : FrugalRun w) : Reachable w := by
  induction h with
  | start serves => exact .start serves
  | step _ hs ih => exact ih.step hs.step

structure Quiet (w : System A) : Prop where
  events : w.heap.events = []
  plain : ∀ C ∈ w.containers,
    C.1.Lax ∧ C.2.table.growth.maxLoad = Growth.defaultLoad

/-- In a quiet system all memory in use is inline. -/
theorem Sound.inline (hw : w.Sound) (hquiet : w.heap.events = []) :
    ∀ C ∈ w.containers, C.2.table.usesOverflow = false ∧ C.2.table.buckets.isGrown = false ∧
      C.2.table.size ≤ C.1.shape.capacity := by
  intro C hC
  obtain ⟨heap, rows, others, hs⟩ := hw.intact C hC
  have hloans := (List.append_eq_nil_iff.mp (hw.lends.eq_nil_of_quiet hquiet)).1
  exact hs.inline_of_loans (List.flatMap_eq_nil_iff.mp hloans C hC)

/-- In a quiet system copying succeeds without a request. -/
theorem Sound.copy_quiet {Cs : List (Σ F : Profile, F.Container A)} {heap : Heap A}
    {lost : List (Loan A)} {c : F.Container A} (hw : Sound ⟨Cs, heap, lost⟩)
    (hquiet : heap.events = []) (hc : ⟨F, c⟩ ∈ Cs) : ∃ d, c.copy heap = (.ok d, heap) := by
  obtain ⟨-, hgrown, hsize⟩ := hw.inline hquiet _ hc
  obtain ⟨pre, post, rfl⟩ := List.append_of_mem hc
  obtain ⟨rows, hs⟩ := hw.focus
  obtain ⟨t', ht'⟩ := hs.copy_fits hsize hgrown
  exact ⟨{ c with table := t' }, by simp only [Keyed.copy, ht']⟩

section Collect

variable {builder : F.Builder} {delegate : A} {items : List (Item F)} {heap heap' : Heap A}
  {others : List (Loan A)} (hF : F.Lax) (hquiet : heap.events = []) (hl : heap.Lends others)
  (hitems : FrugalItems (.new builder delegate) heap items)
include hF hquiet hl hitems

theorem collected_quiet {c : F.Container A}
    (hr : Keyed.ofList Item.insert builder delegate items heap = (.ok c, heap')) :
    heap' = heap ∧ c.table.growth.maxLoad = Growth.defaultLoad := by
  have hnew := Table.stores_new (s := F.shape) (T := F.Key × F.Value) delegate hl
  have hload := (Table.asBuilt_new hF.overflow delegate :
    (Table.new delegate : Table F.shape (F.Key × F.Value) A).AsBuilt).maxLoad
  have hheap := insertMany_quiet hF hquiet hnew (Table.tuned_new delegate) hload items hitems
  have hsame := insertMany_maxLoad (c := .new builder delegate) items hnew
    (Table.tuned_new delegate)
  rw [Keyed.insertMany_of_ofList_ok hr] at hheap hsame
  exact ⟨hheap, hsame.trans hload⟩

theorem uncollected_takesBack {e : MemoryError}
    (hr : Keyed.ofList Item.insert builder delegate items heap = (.error e, heap')) :
    heap.TakesBack heap' := by
  have hheap := insertMany_quiet hF hquiet (Table.stores_new delegate hl)
    (Table.tuned_new delegate) (Table.asBuilt_new hF.overflow delegate).maxLoad items hitems
  obtain ⟨c, middle, hi, rfl⟩ := Keyed.insertMany_of_ofList_error hr
  rw [hi] at hheap
  exact hheap ▸ Table.takesBack_dispose c.table middle

end Collect

/-- A frugal step returns blocks at most. -/
theorem FrugalStep.takesBack (hs : FrugalStep w w') (hw : w.Sound)
    (hc : ∀ C ∈ w.containers, C.2.table.Coherent) (hq : w.Quiet) : w.heap.TakesBack w'.heap := by
  cases hs with
  | build | swap => exact .refl
  | collect hF hitems hr =>
    obtain ⟨rfl, -⟩ := collected_quiet hF hq.events hw.lends hitems hr
    exact .refl
  | collectFailed hF hitems hr => exact uncollected_takesBack hF hq.events hw.lends hitems hr
  | act action haction =>
    obtain ⟨rows, hs⟩ := hw.focus
    obtain ⟨hF, hload⟩ := hq.plain _ List.mem_append_cons_self
    have ht := (hc _ List.mem_append_cons_self).tuned
    exact action.takesBack hF hq.events hs ht hload haction
  | copy hmem hr =>
    obtain ⟨d, hd⟩ := hw.copy_quiet hq.events hmem
    rw [hd] at hr
    cases hr
    exact .refl
  | copyFailed hmem hr =>
    obtain ⟨d, hd⟩ := hw.copy_quiet hq.events hmem
    rw [hd] at hr
    cases hr
  | @copyFrom pre post heap heap' lost F target source copy hsource hr =>
    obtain ⟨d, hd⟩ := hw.copy_quiet hq.events (mem_around hsource)
    rw [hd] at hr
    cases hr
    exact Table.takesBack_dispose target.table heap
  | @drop pre post heap lost F c => exact Table.takesBack_dispose c.table heap

theorem FrugalStep.plain (hs : FrugalStep w w') (hw : w.Sound)
    (hc : ∀ C ∈ w.containers, C.2.table.Coherent) (hq : w.Quiet) :
    ∀ C ∈ w'.containers, C.1.Lax ∧ C.2.table.growth.maxLoad = Growth.defaultLoad := by
  have hplain := hq.plain
  cases hs with
  | build hF builder delegate =>
    exact List.forall_mem_cons.mpr
      ⟨⟨hF, (Table.asBuilt_new hF.overflow delegate).maxLoad⟩, hplain⟩
  | collect hF hitems hr =>
    exact List.forall_mem_cons.mpr
      ⟨⟨hF, (collected_quiet hF hq.events hw.lends hitems hr).2⟩, hplain⟩
  | collectFailed | copyFailed => exact hplain
  | act action haction =>
    obtain ⟨rows, hs⟩ := hw.focus
    have ht := (hc _ List.mem_append_cons_self).tuned
    simp only [List.forall_mem_append, List.forall_mem_cons] at hplain ⊢
    obtain ⟨hF, hload⟩ := hplain.2.1
    exact ⟨hplain.1, ⟨hF, action.run_maxLoad hs ht hload haction.loads⟩, hplain.2.2⟩
  | copy hmem hr =>
    obtain ⟨hF, hload⟩ := hplain _ hmem
    have hsame := congrArg Growth.maxLoad (hw.samePlan_copy hmem hr).growth
    exact List.forall_mem_cons.mpr ⟨⟨hF, hsame.trans hload⟩, hplain⟩
  | @copyFrom pre post heap heap' lost F target source copy hsource hr =>
    have hmem : ⟨F, source⟩ ∈ pre ++ ⟨F, target⟩ :: post := mem_around hsource
    obtain ⟨hF, hload⟩ := hplain _ hmem
    have hsame := congrArg Growth.maxLoad (hw.samePlan_copy hmem hr).growth
    simp only [List.forall_mem_append, List.forall_mem_cons] at hplain ⊢
    exact ⟨hplain.1, ⟨hF, hsame.trans hload⟩, hplain.2.2⟩
  | swap =>
    simp only [List.forall_mem_append, List.forall_mem_cons] at hplain ⊢
    obtain ⟨⟨hpre, hC, hmid⟩, hD, hpost⟩ := hplain
    exact ⟨⟨hpre, hD, hmid⟩, hC, hpost⟩
  | drop =>
    simp only [List.forall_mem_append, List.forall_mem_cons] at hplain ⊢
    exact ⟨hplain.1, hplain.2.2⟩

theorem FrugalRun.quiet (h : FrugalRun w) : w.Quiet := by
  induction h with
  | start serves => exact ⟨rfl, fun C hC => nomatch hC⟩
  | @step w w' h hs ih =>
    have hsound := h.reachable.sound
    have hcoherent := h.reachable.coherent
    have hsettled := (hs.step.sound hsound).lends.settled
    have hheap := (hs.takesBack hsound hcoherent ih).eq_of_quiet ih.events hsettled
    exact ⟨hheap ▸ ih.events, hs.plain hsound hcoherent ih⟩

/-- Nothing is requested of the heap, and no container uses overflow memory, as long as no container
is to hold more entries than its inline slots and buckets do. -/
theorem FrugalRun.within_capacity (h : FrugalRun w) :
    w.heap.events = [] ∧ ∀ C ∈ w.containers, C.2.table.usesOverflow = false :=
  ⟨h.quiet.events, fun C hC => (h.reachable.sound.inline h.quiet.events C hC).1⟩

/-- The slot of a removed entry serves the next one, and the container is copied. -/
def refilled : System Lender :=
  let erase : Action oneSlot Lender :=
    .map (.ofFun fun _ _ => 0) (.common (.erase (5 : Nat)))
  let first := (insertUnder 0 6).run (.new () .plain) { serves := fun _ _ _ => true }
  let second := erase.run first.1 first.2
  let third := (insertUnder 0 7).run second.1 second.2
  match third.1.copy third.2 with
  | (.ok copy, heap) => ⟨[⟨oneSlot, copy⟩, ⟨oneSlot, third.1⟩], heap, []⟩
  | (.error _, heap) => ⟨[⟨oneSlot, third.1⟩], heap, []⟩

theorem FrugalRun.act {c : F.Container A} {heap : Heap A} {lost : List (Loan A)}
    (h : FrugalRun ⟨[⟨F, c⟩], heap, lost⟩) (action : Action F A)
    (haction : action.Frugal c heap) :
    FrugalRun ⟨[⟨F, (action.run c heap).1⟩], (action.run c heap).2,
      action.abandoned c ++ lost⟩ :=
  h.step (@FrugalStep.act A _ [] [] _ _ _ _ action haction)

theorem lax_oneSlot : oneSlot.Lax := ⟨rfl, by decide⟩

theorem frugalRun_refilled : FrugalRun refilled := by
  have h0 : FrugalRun ⟨[⟨oneSlot, .new () Lender.plain⟩],
      { serves := fun _ _ _ => true }, []⟩ :=
    (FrugalRun.start _).step (.build lax_oneSlot () Lender.plain)
  have h1 := h0.act (insertUnder 0 6) (fun _ => by decide)
  have h2 := h1.act (.map (.ofFun fun _ _ => 0) (.common (.erase (5 : Nat)))) trivial
  have h3 := h2.act (insertUnder 0 7) (fun _ => by decide)
  exact h3.step (.copy List.mem_cons_self rfl)

theorem within_capacity_refilled :
    refilled.containers.map (fun C => C.2.size) = [1, 1] ∧ refilled.heap.events = [] ∧
      ∀ C ∈ refilled.containers, C.2.table.usesOverflow = false :=
  ⟨by rfl, FrugalRun.within_capacity frugalRun_refilled⟩

end System

end ArenaHash
