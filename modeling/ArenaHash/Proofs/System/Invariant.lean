import ArenaHash.Proofs.System.Steps

/-!
# The invariant of a system

`w.Sound`: the heap lends what the containers hold and what was abandoned, and nothing else; and
each container stores some rows. Every step keeps it (`Step.sound`), so it holds of every reachable
system (`Reachable.sound`). A step looks at one container as a table that stores its rows in a heap
that also lends to others (`Sound.focus`, `Sound.refocus`).
-/

namespace ArenaHash

variable {F : Profile} {A : Type} [Allocator A]

/-- The loans of a container: the blocks of its nodes and its grown bucket array. -/
def Profile.Container.held (C : Σ F : Profile, F.Container A) : List (Loan A) :=
  C.2.table.loans C.2.table.refs

open Profile.Container

/-- The table is fine as far as it alone is concerned. -/
def Table.Intact {s : Table.Shape} {T : Type} (t : Table s T A) : Prop :=
  ∃ heap rows others, t.Stores heap rows [] others

/-! ## Actions -/

section

variable {c : F.Container A} {heap : Heap A} {rows : Rows (F.Key × F.Value)}
  {others : List (Loan A)}

theorem Item.insert_stores (item : Item F) (h : c.table.Stores heap rows [] others) :
    ∃ rows', (Item.insert c item heap).2.1.table.Stores (Item.insert c item heap).2.2 rows' []
      others := by
  unfold Item.insert
  cases item.manner with
  | overwrite => exact Map.perform_stores item.hashing (.insert item.key item.value) h
  | keep =>
    obtain ⟨result, t', heap', hadd, hi⟩ :=
      Map.add_inserted item.hashing h item.key item.value
    rcases Keyed.lookup_cases item.hashing h item.key with ⟨-, hf, -⟩ | ⟨_, _, _, _, _, _, hf, _⟩
    · simp only [Map.insertIfNew, hf, hadd]
      exact hi.stores
    · simp only [Map.insertIfNew, hf]
      exact ⟨rows, h⟩
  | beside => exact Multimap.perform_stores item.hashing (.insert item.key item.value) h

theorem insertMany_stores (items : List (Item F)) (h : c.table.Stores heap rows [] others) :
    ∃ rows', (Keyed.insertMany Item.insert c items heap).2.1.table.Stores
      (Keyed.insertMany Item.insert c items heap).2.2 rows' [] others := by
  induction items generalizing c heap rows with
  | nil => exact ⟨rows, h⟩
  | cons item items ih =>
    obtain ⟨rows', hs⟩ := item.insert_stores h
    unfold Keyed.insertMany
    rcases hi : Item.insert c item heap with ⟨e | _, c', heap'⟩
    · rw [hi] at hs
      exact ⟨rows', hs⟩
    · rw [hi] at hs
      exact ih hs

/-- What every insertion keeps is kept by a list of them. -/
theorem insertMany_invariant {P : F.Container A → Prop}
    (step : ∀ {c : F.Container A} {heap : Heap A} {rows : Rows (F.Key × F.Value)} (item : Item F),
      c.table.Stores heap rows [] others → P c → P (Item.insert c item heap).2.1)
    (items : List (Item F)) (h : c.table.Stores heap rows [] others) (hc : P c) :
    P (Keyed.insertMany Item.insert c items heap).2.1 := by
  induction items generalizing c heap rows with
  | nil => exact hc
  | cons item items ih =>
    have hc' := step item h hc
    obtain ⟨rows', hs⟩ := item.insert_stores h
    unfold Keyed.insertMany
    rcases hi : Item.insert c item heap with ⟨e | _, c', heap'⟩ <;> rw [hi] at hs hc'
    · exact hc'
    · exact ih hs hc'

theorem Action.run_stores (action : Action F A) (h : c.table.Stores heap rows [] others) :
    ∃ rows', (action.run c heap).1.table.Stores (action.run c heap).2 rows' []
      (action.abandoned c ++ others) := by
  cases action with
  | map H call => exact Map.perform_stores H call h
  | multimap H call => exact Multimap.perform_stores H call h
  | extend items => exact insertMany_stores items h
  | pop position =>
    rcases h.pop position with ⟨hrun, -⟩ | ⟨i, cell, cs, t', heap', hrun, -, -, -, hs, -⟩
    · exact ⟨rows, by simp only [run, Keyed.pop, hrun]; exact h⟩
    · exact ⟨_, by simp only [run, Keyed.pop, hrun]; exact hs⟩
  | setDelegate delegate => exact ⟨rows, h.setDelegate delegate⟩

end

namespace System

structure Sound (w : System A) : Prop where
  lends : w.heap.Lends (w.containers.flatMap held ++ w.abandoned)
  intact : ∀ C ∈ w.containers, C.2.table.Intact

variable {pre post : List (Σ F : Profile, F.Container A)} {c c' : F.Container A}
  {heap heap' : Heap A} {lost lost' : List (Loan A)} {Cs : List (Σ F : Profile, F.Container A)}

omit [Allocator A] in
theorem held_perm (C : Σ F : Profile, F.Container A) :
    ((pre ++ C :: post).flatMap held ++ lost).Perm
      (held C ++ ((pre ++ post).flatMap held ++ lost)) := by
  simp only [List.flatMap_append, List.flatMap_cons, List.append_assoc]
  exact List.perm_append_comm_assoc _ _ _

omit [Allocator A] in
theorem mem_around {C D : Σ F : Profile, F.Container A} (h : C ∈ pre ++ post) :
    C ∈ pre ++ D :: post :=
  List.mem_append.mpr ((List.mem_append.mp h).imp_right (List.mem_cons_of_mem D))

theorem Sound.focus (h : Sound ⟨pre ++ ⟨F, c⟩ :: post, heap, lost⟩) :
    ∃ rows, c.table.Stores heap rows [] ((pre ++ post).flatMap held ++ lost) := by
  obtain ⟨heap₀, rows, others₀, hs⟩ := h.intact ⟨F, c⟩ (by simp)
  have hl := h.lends.perm (held_perm ⟨F, c⟩)
  refine ⟨rows, hs.rebase ?_⟩
  rwa [List.append_nil, ← hs.refs_eq]

theorem Sound.refocus (h : Sound ⟨pre ++ ⟨F, c⟩ :: post, heap, lost⟩)
    {rows : Rows (F.Key × F.Value)}
    (hs : c'.table.Stores heap' rows [] (lost' ++ ((pre ++ post).flatMap held ++ lost))) :
    Sound ⟨pre ++ ⟨F, c'⟩ :: post, heap', lost' ++ lost⟩ where
  lends := by
    refine hs.lends.perm (List.Perm.trans ?_ (held_perm ⟨F, c'⟩).symm)
    exact .append_left _ (List.perm_append_comm_assoc _ _ _)
  intact C hC := by
    rcases List.mem_append.mp hC with hC | hC
    · exact h.intact C (List.mem_append_left _ hC)
    · rcases List.mem_cons.mp hC with rfl | hC
      · exact ⟨_, _, _, hs⟩
      · exact h.intact C (by simp [hC])

/-- A further container, and what it borrowed. -/
theorem Sound.add {rows : Rows (F.Key × F.Value)} (h : Sound ⟨Cs, heap, lost⟩)
    (hs : c.table.Stores heap' rows [] (Cs.flatMap held ++ lost)) :
    Sound ⟨⟨F, c⟩ :: Cs, heap', lost⟩ where
  lends := by
    rw [List.flatMap_cons, List.append_assoc]
    exact hs.lends
  intact C hC := by
    rcases List.mem_cons.mp hC with rfl | hC
    · exact ⟨_, _, _, hs⟩
    · exact h.intact C hC

theorem Sound.perm {Cs' : List (Σ F : Profile, F.Container A)} (h : Sound ⟨Cs, heap, lost⟩)
    (hp : Cs.Perm Cs') : Sound ⟨Cs', heap, lost⟩ where
  lends := h.lends.perm (.append_right _ (hp.flatMap_right _))
  intact C hC := h.intact C (hp.mem_iff.mpr hC)

theorem Sound.drop (h : Sound ⟨pre ++ ⟨F, c⟩ :: post, heap, lost⟩) :
    Sound ⟨pre ++ post, c.dispose heap, lost⟩ where
  lends := by
    obtain ⟨rows, hs⟩ := h.focus
    exact hs.dispose
  intact C hC := h.intact C (by rcases List.mem_append.mp hC with hC | hC <;> simp [hC])

section

variable {builder : F.Builder} {delegate : A} {items : List (Item F)}
  {d : F.Container A} {e : MemoryError}

theorem ofList_ok {others : List (Loan A)} (hl : heap.Lends others)
    (hr : Keyed.ofList Item.insert builder delegate items heap = (.ok c, heap')) :
    ∃ rows, c.table.Stores heap' rows [] others := by
  obtain ⟨rows, hs⟩ := insertMany_stores (c := .new builder delegate) items
    (Table.stores_new delegate hl)
  rw [Keyed.insertMany_of_ofList_ok hr] at hs
  exact ⟨rows, hs⟩

theorem ofList_error {others : List (Loan A)} (hl : heap.Lends others)
    (hr : Keyed.ofList Item.insert builder delegate items heap = (.error e, heap')) :
    heap'.Lends others := by
  obtain ⟨rows, hs⟩ := insertMany_stores (c := .new builder delegate) items
    (Table.stores_new delegate hl)
  obtain ⟨c, middle, hi, rfl⟩ := Keyed.insertMany_of_ofList_error hr
  rw [hi] at hs
  exact hs.dispose

/-- A container that is copied stays as it is and so do all others. -/
theorem Sound.copy (h : Sound ⟨Cs, heap, lost⟩) (hc : ⟨F, c⟩ ∈ Cs)
    (hr : c.copy heap = (.ok d, heap')) : Sound ⟨⟨F, d⟩ :: Cs, heap', lost⟩ := by
  obtain ⟨pre, post, rfl⟩ := List.append_of_mem hc
  obtain ⟨rows, hs⟩ := h.focus
  obtain ⟨t', ht, rfl⟩ := Keyed.table_copy_of_ok hr
  obtain ⟨rows', hs', -⟩ := hs.copy_ok ht
  exact h.add (hs'.rebase (hs'.keeps.lends.perm (.append_left _ (held_perm ⟨F, c⟩).symm)))

theorem Sound.copyFailed (h : Sound ⟨Cs, heap, lost⟩) (hc : ⟨F, c⟩ ∈ Cs)
    (hr : c.copy heap = (.error e, heap')) : Sound ⟨Cs, heap', lost⟩ := by
  obtain ⟨pre, post, rfl⟩ := List.append_of_mem hc
  obtain ⟨rows, hs⟩ := h.focus
  exact h.refocus (show c.table.Stores _ rows [] ([] ++ _) from
    (hs.copy_error (Keyed.table_copy_of_error hr)).1)

end

theorem Step.sound {w w' : System A} (hs : Step w w') (h : w.Sound) : w'.Sound := by
  cases hs with
  | build F builder delegate => exact h.add (Table.stores_new delegate h.lends)
  | collect hr =>
    obtain ⟨rows, hs⟩ := ofList_ok h.lends hr
    exact h.add hs
  | collectFailed hr => exact ⟨ofList_error h.lends hr, h.intact⟩
  | act action =>
    obtain ⟨rows, hs⟩ := h.focus
    obtain ⟨rows', hs'⟩ := action.run_stores hs
    exact h.refocus hs'
  | copy hc hr => exact h.copy hc hr
  | copyFailed hc hr => exact h.copyFailed hc hr
  | @copyFrom pre post heap heap' lost F target source copy hsource hr =>
    have hcopied : Sound ⟨(⟨F, copy⟩ :: pre) ++ ⟨F, target⟩ :: post, heap', lost⟩ :=
      h.copy (mem_around hsource) hr
    exact hcopied.drop.perm List.perm_middle.symm
  | @swap pre mid post heap lost C D =>
    apply h.perm
    rw [List.append_assoc, List.append_assoc]
    refine .append_left pre ?_
    exact (List.perm_middle.cons C).trans
      ((List.Perm.swap D C _).trans (List.perm_middle.symm.cons D))
  | drop => exact h.drop

theorem Reachable.sound {w : System A} (h : Reachable w) : w.Sound := by
  induction h with
  | start serves => exact ⟨Heap.lends_nil serves, by simp⟩
  | step _ hs ih => exact hs.sound ih

/-- What holds of a container that was just built, and is kept by actions and copies, holds of every
container in a reachable system. -/
theorem Reachable.forall_containers {P : (Σ F : Profile, F.Container A) → Prop} {w : System A}
    (h : Reachable w) (new : ∀ F builder delegate, P ⟨F, .new builder delegate⟩)
    (act : ∀ {F : Profile} {c : F.Container A} {heap : Heap A} {rows : Rows (F.Key × F.Value)}
      {others : List (Loan A)} (action : Action F A), c.table.Stores heap rows [] others →
        P ⟨F, c⟩ → P ⟨F, (action.run c heap).1⟩)
    (copy : ∀ {F : Profile} {c d : F.Container A} {heap heap' : Heap A}
      {rows : Rows (F.Key × F.Value)} {others : List (Loan A)},
        c.table.Stores heap rows [] others → c.copy heap = (.ok d, heap') → P ⟨F, c⟩ → P ⟨F, d⟩) :
    ∀ C ∈ w.containers, P C := by
  induction h with
  | start serves => exact fun C hC => nomatch hC
  | step h hs ih =>
    have hw := h.sound
    have hcopied : ∀ {Cs : List (Σ F : Profile, F.Container A)} {heap heap' : Heap A}
        {lost : List (Loan A)} {F : Profile} {c d : F.Container A}, Sound ⟨Cs, heap, lost⟩ →
          ⟨F, c⟩ ∈ Cs → c.copy heap = (.ok d, heap') → P ⟨F, c⟩ → P ⟨F, d⟩ := by
      intro Cs heap heap' lost F c d hw hc hr
      obtain ⟨pre, post, rfl⟩ := List.append_of_mem hc
      obtain ⟨rows, hs⟩ := hw.focus
      exact copy hs hr
    cases hs with
    | build F builder delegate => exact List.forall_mem_cons.mpr ⟨new F builder delegate, ih⟩
    | @collect Cs heap heap' lost F builder delegate items c hr =>
      refine List.forall_mem_cons.mpr ⟨?_, ih⟩
      have hextended := act (c := .new builder delegate) (.extend items)
        (Table.stores_new delegate hw.lends) (new F builder delegate)
      rwa [Action.run, Keyed.insertMany_of_ofList_ok hr] at hextended
    | collectFailed | copyFailed => exact ih
    | act action =>
      obtain ⟨rows, hs⟩ := hw.focus
      simp only [List.forall_mem_append, List.forall_mem_cons] at ih ⊢
      exact ⟨ih.1, act action hs ih.2.1, ih.2.2⟩
    | copy hc hr => exact List.forall_mem_cons.mpr ⟨hcopied hw hc hr (ih _ hc), ih⟩
    | @copyFrom pre post heap heap' lost F target source copy hsource hr =>
      have hmem : ⟨F, source⟩ ∈ pre ++ ⟨F, target⟩ :: post := mem_around hsource
      have hcopy := hcopied hw hmem hr (ih _ hmem)
      simp only [List.forall_mem_append, List.forall_mem_cons] at ih ⊢
      exact ⟨ih.1, hcopy, ih.2.2⟩
    | swap =>
      simp only [List.forall_mem_append, List.forall_mem_cons] at ih ⊢
      obtain ⟨⟨hpre, hC, hmid⟩, hD, hpost⟩ := ih
      exact ⟨⟨hpre, hD, hmid⟩, hC, hpost⟩
    | drop =>
      simp only [List.forall_mem_append, List.forall_mem_cons] at ih ⊢
      exact ⟨ih.1, ih.2.2⟩

end System

end ArenaHash
