import ArenaHash.Proofs.Memory.Ledger

/-!
# Requests in a row

`heap.requestAll lender layouts` requests blocks of these layouts one after the other, up to the
first refusal. `Asked` is what the heap records of it: the blocks that were served, in this order,
and the refusal that ended it, if there was one.
-/

namespace ArenaHash

/-- The error in an answer. -/
def denied? {ρ : Type} : Except MemoryError ρ → Option MemoryError
  | .ok _ => none
  | .error e => some e

/-- The block is served. -/
def Loan.opening {A : Type} (x : Loan A) : Event A := .served x.lender x.block x.layout

namespace Heap

variable {A : Type} [Allocator A] {heap later : Heap A} {lender : A} {layouts : List Layout}
  {granted : List (Loan A)} {e : MemoryError}

def requestAll (heap : Heap A) (lender : A) :
    List Layout → List (Loan A) × Except MemoryError Unit × Heap A
  | [] => ([], .ok (), heap)
  | layout :: layouts =>
    match heap.request lender layout with
    | (.error e, later) => ([], .error e, later)
    | (.ok b, later) =>
      let (granted, result, last) := later.requestAll lender layouts
      (⟨b, lender, layout⟩ :: granted, result, last)

theorem requestAll_of_ok {layout : Layout} {b : Block}
    (h : heap.request lender layout = (.ok b, later)) (layouts : List Layout) :
    heap.requestAll lender (layout :: layouts) =
      (⟨b, lender, layout⟩ :: (later.requestAll lender layouts).1,
        (later.requestAll lender layouts).2) := by
  simp only [requestAll, h]

theorem requestAll_of_error {layout : Layout}
    (h : heap.request lender layout = (.error e, later)) (layouts : List Layout) :
    heap.requestAll lender (layout :: layouts) = ([], .error e, later) := by
  simp only [requestAll, h]

/-- Where all requests were served the next ones go on. -/
theorem requestAll_append (h : heap.requestAll lender layouts = (granted, .ok (), later))
    (more : List Layout) :
    heap.requestAll lender (layouts ++ more) =
      (granted ++ (later.requestAll lender more).1, (later.requestAll lender more).2) := by
  induction layouts generalizing heap granted with
  | nil =>
    cases h
    rfl
  | cons layout layouts ih =>
    rw [List.cons_append]
    rcases hr : heap.request lender layout with ⟨_ | b, middle⟩
    · rw [requestAll_of_error hr] at h
      cases h
    · rcases hrest : middle.requestAll lender layouts with ⟨rest, result, last⟩
      rw [requestAll_of_ok hr, hrest] at h
      cases h
      rw [requestAll_of_ok hr, ih hrest]
      rfl

/-- After a refusal nothing is requested. -/
theorem requestAll_refused (h : heap.requestAll lender layouts = (granted, .error e, later))
    (more : List Layout) :
    heap.requestAll lender (layouts ++ more) = (granted, .error e, later) := by
  induction layouts generalizing heap granted with
  | nil => cases h
  | cons layout layouts ih =>
    rw [List.cons_append]
    rcases hr : heap.request lender layout with ⟨_ | b, middle⟩
    · rw [requestAll_of_error hr] at h ⊢
      exact h
    · rcases hrest : middle.requestAll lender layouts with ⟨rest, result, last⟩
      rw [requestAll_of_ok hr, hrest] at h
      cases h
      rw [requestAll_of_ok hr, ih hrest]

/-! ## What is recorded -/

inductive Asked (heap : Heap A) (lender : A) (layouts : List Layout) :
    List (Loan A) × Except MemoryError Unit × Heap A → Prop where
  | granted {granted : List (Loan A)} {later : Heap A}
    (all : granted.map Loan.layout = layouts)
    (serves : later.serves = heap.serves)
    (events : later.events = (granted.map Loan.opening).reverse ++ heap.events) :
    Asked heap lender layouts (granted, .ok (), later)
  | refused {granted : List (Loan A)} {layout : Layout} {rest : List Layout} {later : Heap A}
    (upTo : granted.map Loan.layout ++ layout :: rest = layouts)
    (serves : later.serves = heap.serves)
    (events : later.events =
      .refused lender layout :: (granted.map Loan.opening).reverse ++ heap.events) :
    Asked heap lender layouts
      (granted, .error (.refused (Allocator.name lender) layout.size layout.align), later)

theorem asked (heap : Heap A) (lender : A) (layouts : List Layout) :
    heap.Asked lender layouts (heap.requestAll lender layouts) := by
  induction layouts generalizing heap with
  | nil => exact .granted rfl rfl rfl
  | cons layout layouts ih =>
    rcases request_cases heap lender layout with hr | hr
    · rw [requestAll_of_ok hr]
      have hrest := ih
        { heap with
          events := .served lender heap.nextBlock layout :: heap.events
          nextBlock := heap.nextBlock + 1 }
      generalize requestAll _ lender layouts = rest at hrest ⊢
      cases hrest with
      | granted all serves events =>
        exact .granted (congrArg (layout :: ·) all) serves (by simp [events, Loan.opening])
      | refused upTo serves events =>
        exact .refused (congrArg (layout :: ·) upTo) serves (by simp [events, Loan.opening])
    · rw [requestAll_of_error hr]
      exact .refused rfl rfl rfl

/-- The answer is an error exactly if the last request was refused. -/
theorem Asked.continues {out : List (Loan A) × Except MemoryError Unit × Heap A}
    (h : heap.Asked lender layouts out) : heap.Continues out.2.2 (denied? out.2.1) := by
  have hnone : ∀ granted : List (Loan A),
      (granted.map Loan.opening).reverse.findSome? Event.refusal? = none := by
    simp [Loan.opening, Event.refusal?]
  cases h with
  | granted all serves events => exact ⟨serves, _, events, hnone _⟩
  | refused upTo serves events => exact ⟨serves, _, events, rfl⟩

/-- As many blocks were granted as were requested. -/
theorem length_of_requestAll (h : heap.requestAll lender layouts = (granted, .ok (), later)) :
    granted.length = layouts.length := by
  have hasked := heap.asked lender layouts
  rw [h] at hasked
  cases hasked with
  | granted all => rw [← all, List.length_map]

end Heap

end ArenaHash
