import ArenaHash.Proofs.Table.Strict

/-!
# While nothing is refused

If its allocator refuses nothing, an insertion fails only because all slots are in use; then the
table stays as it is, and otherwise bucket count and growth plan follow from `t.due?`. A copy does
not fail at all. That a request was refused can be seen from the events: a table that may overflow
answers with an error exactly if the last request was refused.
-/

namespace ArenaHash

namespace Table

variable {s : Shape} {T A : Type} [Allocator A] {t t' : Table s T A} {heap heap' : Heap A}
  {rows : Rows T} {others : List (Loan A)}

/-! ## Copies -/

/-- A copy fails only if a request is refused. -/
theorem Stores.copy_unrefused (h : t.Stores heap rows [] others)
    (hr : heap.refusalSince (t.copy heap).2 = none) :
    ∃ copy, t.copy heap = (.ok copy, (t.copy heap).2) := by
  have hdenied := h.copying.continues.refusalSince.symm.trans hr
  rcases hcopy : t.copy heap with ⟨e | copy, later⟩
  · rw [hcopy] at hdenied
    cases hdenied
  · exact ⟨copy, rfl⟩

/-! ## Insertions -/

variable {hash : UInt64} {entry : T} {hasher : Ref → T → UInt64}
  {add : Ref → List (Cell T) → List (Cell T)}
  {result : Except MemoryError Ref × Table s T A × Heap A}

/-- What an insertion comes to if no request is refused. -/
inductive Unrefused (t : Table s T A) (rows : Rows T) (others : List (Loan A)) (hash : UInt64)
    (hasher : Ref → T → UInt64) (add : Ref → List (Cell T) → List (Cell T)) :
    Except MemoryError Ref × Table s T A × Heap A → Prop where
  | full {e : MemoryError} {heap' : Heap A} (full : s.denial t.size none = some e) :
    Unrefused t rows others hash hasher add (.error e, t, heap')
  | done {rows' : Rows T} {q : Ref} {t' : Table s T A} {heap' : Heap A}
    (granted : s.denial t.size none = none)
    (bucketCount : t'.bucketCount = t.due?.getD t.bucketCount)
    (growth : t'.growth = t.due?.elim t.growth t.growth.retarget)
    (regrouped : Rows.Regrouped hasher rows rows' t.bucketCount t'.bucketCount)
    (stores : t'.Stores heap'
      (rows'.put (t'.bucketOf hash) (add q (rows' (t'.bucketOf hash)))) [] others) :
    Unrefused t rows others hash hasher add (.ok q, t', heap')

/-- A table that may overflow is denied only what is refused. -/
theorem Shape.strict_of_denial {size : Nat} {e : MemoryError} (h : s.denial size none = some e) :
    s.overflow = false := by
  unfold denial at h
  split at h
  · cases h
  · next ho => simpa using ho

theorem Refusal.eq_of_strict {e : MemoryError} (h : Refusal t hasher heap e t' heap')
    (ho : s.overflow = false) : t' = t := by
  cases h with
  | full | node | array => rfl
  | grown due => exact absurd (ho.symm.trans (overflow_of_due due)) nofun

/-- Room was made as the plan asks for. -/
theorem Room.plan {room : Table s T A} {later : Heap A}
    (h : Room t hasher heap (.ok (), room, later)) :
    room.bucketCount = t.due?.getD t.bucketCount ∧
      room.growth = t.due?.elim t.growth t.growth.retarget := by
  cases h with
  | enough due => rw [due]; exact ⟨rfl, rfl⟩
  | grown due redistributed =>
    rw [due]
    exact ⟨redistributed.bucketCount, redistributed.growth⟩

theorem Inserted.unrefused
    (h : Inserted t heap rows others hash hasher add result)
    (hfull : ∀ e, result.1 = .error e → Refusal t hasher heap e result.2.1 result.2.2)
    (hplan : ∀ q, result.1 = .ok q → ∃ room later,
      Room t hasher heap (.ok (), room, later) ∧ room.SamePlan result.2.1)
    (hr : heap.refusalSince result.2.2 = none) :
    Unrefused t rows others hash hasher add result := by
  cases h with
  | @denied rows' e t' heap' _ _ r continues denied =>
    obtain rfl : r = none := continues.refusalSince.symm.trans hr
    obtain rfl : t' = t := (hfull e rfl).eq_of_strict (Shape.strict_of_denial denied)
    exact .full denied
  | @done rows' q t' heap' regrouped stores _ granted =>
    obtain ⟨room, later, hroom, hsame⟩ := hplan q rfl
    obtain ⟨hcount, hgrowth⟩ := hroom.plan
    exact .done granted (hsame.bucketCount.trans hcount) (hsame.growth.trans hgrowth) regrouped
      stores

section

variable (ht : t.Tuned) (h : t.Stores heap rows [] others) (hash : UInt64) (entry : T)
  (hasher : Ref → T → UInt64)
include ht h

/-- An insertion that succeeds has made room before. -/
theorem Tuned.insertFront_room {q : Ref}
    (hq : (t.insertFront hash entry hasher heap).1 = .ok q) :
    ∃ room later, Room t hasher heap (.ok (), room, later) ∧
      room.SamePlan (t.insertFront hash entry hasher heap).2.1 := by
  have hplan := SamePlan.insertFront t hash entry hasher heap
  have hroom := ht.room h hasher
  rcases hm : t.makeRoom hasher heap with ⟨e | _, room, later⟩
  · simp only [insertFront, hm] at hq
    cases hq
  · rw [hm] at hplan hroom
    exact ⟨room, later, hroom, hplan⟩

theorem Tuned.insertBeside_room (test : T → Bool) {q : Ref}
    (hq : (t.insertBeside hash entry test hasher heap).1 = .ok q) :
    ∃ room later, Room t hasher heap (.ok (), room, later) ∧
      room.SamePlan (t.insertBeside hash entry test hasher heap).2.1 := by
  have hplan := SamePlan.insertBeside t hash entry test hasher heap
  have hroom := ht.room h hasher
  rcases hm : t.makeRoom hasher heap with ⟨e | _, room, later⟩
  · simp only [insertBeside, hm] at hq
    cases hq
  · rw [hm] at hplan hroom
    exact ⟨room, later, hroom, hplan⟩

theorem Tuned.insertFront_unrefused
    (hr : heap.refusalSince (t.insertFront hash entry hasher heap).2.2 = none) :
    Unrefused t rows others hash hasher (fun q cs => s.cell q hash entry :: cs)
      (t.insertFront hash entry hasher heap) :=
  (h.insertFront hash entry hasher).unrefused
    (fun _ he => ht.insertFront_refused h (Prod.ext he rfl))
    (fun _ hq => ht.insertFront_room h hash entry hasher hq) hr

theorem Tuned.insertBeside_unrefused (test : T → Bool)
    (hr : heap.refusalSince (t.insertBeside hash entry test hasher heap).2.2 = none) :
    Unrefused t rows others hash hasher
      (fun q cs => besideFirst (Cell.isMatch hash test) (s.cell q hash entry) cs)
      (t.insertBeside hash entry test hasher heap) :=
  (h.insertBeside hash entry test hasher).unrefused
    (fun _ he => ht.insertBeside_refused h (Prod.ext he rfl))
    (fun _ hq => ht.insertBeside_room h hash entry hasher test hq) hr

end

end Table

end ArenaHash
